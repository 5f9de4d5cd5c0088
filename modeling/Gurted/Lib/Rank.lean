import Mathlib.Algebra.GroupWithZero.Nat
import Mathlib.Data.List.Perm.Basic
import Gurted.Lib.Lts

/-!
# Ranks

A rank that every step of a kind lowers bounds the number of such steps. For parties that
stand in a list, the rank is a sum over them, and a step that touches one party changes its
share of the sum.
-/

namespace Gurted.Lib

section Sum
variable {τ : Type*} {parties : List τ} {i : Nat} {t : τ}

/-- A party that goes takes its share with it. -/
theorem sum_map_eraseIdx (rank : τ → Nat) (h : parties[i]? = some t) :
    (parties.map rank).sum = rank t + ((parties.eraseIdx i).map rank).sum := by
  obtain ⟨hi, hget⟩ := List.getElem?_eq_some_iff.mp h
  have hperm := ((List.getElem_cons_eraseIdx_perm hi).map rank).sum_nat
  rw [hget, List.map_cons, List.sum_cons] at hperm
  exact hperm.symm

/-- A party that changes. -/
theorem sum_map_set (rank : τ → Nat) (h : parties[i]? = some t) (t' : τ) :
    ((parties.set i t').map rank).sum + rank t = (parties.map rank).sum + rank t' := by
  obtain ⟨hi, -⟩ := List.getElem?_eq_some_iff.mp h
  have hset : (parties.set i t')[i]? = some t' := List.getElem?_set_self hi
  rw [sum_map_eraseIdx rank hset, sum_map_eraseIdx rank h, List.eraseIdx_set_eq]
  omega

/-- Shares that are bounded. -/
theorem sum_map_le (rank : τ → Nat) {n : Nat} (h : ∀ t ∈ parties, rank t ≤ n) :
    (parties.map rank).sum ≤ n * parties.length := by
  induction parties with
  | nil => exact Nat.zero_le _
  | cons t parties ih =>
    have hhead := h t (List.mem_cons_self ..)
    have htail := ih fun u hu => h u (List.mem_cons_of_mem _ hu)
    rw [List.map_cons, List.sum_cons, List.length_cons, Nat.mul_succ]
    omega

end Sum

variable {σ α : Type*} {T : Lts σ α}

/-- **Bounded runs.** The rank counts the steps of a kind, and no other step raises it. -/
theorem Lts.Run.countP_add_rank_le (rank : σ → Nat) (kind : α → Bool) {P : α → Prop} {n : Nat}
    (hstep : ∀ s a s', P a → T.step s a s' → rank s' + (if kind a then 1 else 0) ≤ rank s)
    (hinit : ∀ s, T.init s → rank s ≤ n) {tr : List α} {s : σ} (h : T.Run tr s)
    (hP : ∀ a ∈ tr, P a) : tr.countP kind + rank s ≤ n := by
  induction h with
  | start hs => simpa using hinit _ hs
  | next hr hs ih =>
    have hbefore := ih fun a ha => hP a (List.mem_append_left _ ha)
    have hle := hstep _ _ _ (hP _ (by simp)) hs
    rw [List.countP_append, List.countP_singleton]
    omega

/-- Every step lowers the rank. -/
theorem Lts.Run.length_add_rank_le (rank : σ → Nat) {P : α → Prop} {n : Nat}
    (hstep : ∀ s a s', P a → T.step s a s' → rank s' < rank s)
    (hinit : ∀ s, T.init s → rank s ≤ n) {tr : List α} {s : σ} (h : T.Run tr s)
    (hP : ∀ a ∈ tr, P a) : tr.length + rank s ≤ n := by
  have hcount := h.countP_add_rank_le rank (fun _ => true) hstep hinit hP
  rwa [List.countP_true] at hcount

end Gurted.Lib
