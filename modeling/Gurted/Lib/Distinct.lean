import Mathlib.Data.List.Perm.Subperm
import Mathlib.Data.Nat.Init

/-!
# Distinct elements up to a length

`List.eraseDups` keeps the first of equal elements. `mem_take_eraseDups_iff` says when a list
that is cut to a length before the equal elements are dropped has the elements of one that is
cut after that.
-/

namespace Gurted.Lib

variable {α : Type*} [BEq α] [LawfulBEq α]

theorem eraseDups_sublist_nodup (l : List α) : l.eraseDups.Sublist l ∧ l.eraseDups.Nodup := by
  induction hlen : l.length using Nat.strong_induction_on generalizing l with
  | _ n ih =>
    cases l with
    | nil => exact ⟨List.Sublist.refl [], List.nodup_nil⟩
    | cons a l =>
      have hshort : (l.filter fun b => !b == a).length < n := by
        rw [← hlen, List.length_cons]
        exact Nat.lt_succ_of_le (List.length_filter_le _ l)
      obtain ⟨hsub, hnodup⟩ := ih _ hshort _ rfl
      rw [List.eraseDups_cons, List.nodup_cons]
      refine ⟨(hsub.trans List.filter_sublist).cons_cons a, fun hmem => ?_, hnodup⟩
      simpa using (List.mem_filter.mp (hsub.mem hmem)).2

theorem length_eraseDups_eq_iff {l : List α} : l.eraseDups.length = l.length ↔ l.Nodup := by
  obtain ⟨hsub, hnodup⟩ := eraseDups_sublist_nodup l
  constructor
  · intro h
    exact hsub.eq_of_length h ▸ hnodup
  · intro h
    refine Nat.le_antisymm hsub.length_le ?_
    exact (h.subperm fun a ha => List.mem_eraseDups.mpr ha).length_le

/-- The distinct elements are those of the first `n`, and what is new behind these. -/
theorem exists_eraseDups_eq_append (l : List α) (n : Nat) :
    ∃ behind, l.eraseDups = (l.take n).eraseDups ++ behind ∧
      ∀ a, a ∈ behind ↔ a ∈ l ∧ a ∉ l.take n := by
  refine ⟨((l.drop n).removeAll (l.take n)).eraseDups, ?_, fun a => ?_⟩
  · rw [← List.eraseDups_append, List.take_append_drop]
  · simp only [List.mem_eraseDups, List.removeAll, List.mem_filter, List.elem_eq_mem,
      Bool.not_eq_true', decide_eq_false_iff_not]
    refine and_congr_left fun hnew => ⟨List.mem_of_mem_drop, fun hl => ?_⟩
    rw [← List.take_append_drop n l, List.mem_append] at hl
    exact hl.resolve_left hnew

/-- **Counting before or after equal ones are dropped**: the first `n` elements are the first
`n` distinct ones exactly if none of them is there twice, or nothing else comes behind. -/
theorem mem_take_eraseDups_iff {l : List α} {n : Nat} :
    (∀ a, a ∈ l.take n ↔ a ∈ l.eraseDups.take n) ↔
      (l.take n).Nodup ∨ ∀ a ∈ l, a ∈ l.take n := by
  obtain ⟨behind, hsplit, hbehind⟩ := exists_eraseDups_eq_append l n
  have hle : (l.take n).eraseDups.length ≤ (l.take n).length :=
    (eraseDups_sublist_nodup (l.take n)).1.length_le
  have hlen : (l.take n).length = min n l.length := List.length_take
  have hmem : ∀ a, a ∈ l.eraseDups.take n ↔
      a ∈ l.take n ∨ a ∈ behind.take (n - (l.take n).eraseDups.length) := by
    intro a
    rw [hsplit, List.take_append, List.take_of_length_le (by omega), List.mem_append,
      List.mem_eraseDups]
  have hnone : (∀ a, a ∈ l.take n ↔ a ∈ l.eraseDups.take n) ↔
      behind.take (n - (l.take n).eraseDups.length) = [] := by
    rw [List.eq_nil_iff_forall_not_mem]
    refine forall_congr' fun a => ?_
    rw [hmem, iff_self_or]
    constructor
    · intro h hin
      exact ((hbehind a).mp (List.mem_of_mem_take hin)).2 (h hin)
    · intro h hin
      exact absurd hin h
  have hempty : behind = [] ↔ ∀ a ∈ l, a ∈ l.take n := by
    simp only [List.eq_nil_iff_forall_not_mem, hbehind, not_and, not_not]
  rw [hnone, List.take_eq_nil_iff, hempty, ← length_eraseDups_eq_iff]
  constructor
  · rintro (hfull | hall)
    · exact .inl (by omega)
    · exact .inr hall
  · rintro (hnodup | hall)
    · rcases Nat.le_total l.length n with hshort | hlong
      · exact .inr fun a ha => by rwa [List.take_of_length_le hshort]
      · exact .inl (by omega)
    · exact .inr hall

end Gurted.Lib
