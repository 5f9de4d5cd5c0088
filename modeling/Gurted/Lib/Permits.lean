import Mathlib.Data.List.Count

/-!
# Permits

A counter of free permits beside a list of parties, some of which hold one. What
keeps `Balanced` is that a permit is taken when the counter is positive and given
back by a holder. From it follow the bound on the holders and, when nothing is
free, that there is a holder.
-/

namespace Gurted.Lib

variable {τ : Type*}

/-- The free permits and the holders make up `n`. -/
def Balanced (free : Nat) (holds : τ → Bool) (parties : List τ) (n : Nat) : Prop :=
  free + parties.countP holds = n

/-- A party that is replaced counts anew. -/
theorem countP_set_add {holds : τ → Bool} {parties : List τ} {i : Nat} {t t' : τ}
    (hi : parties[i]? = some t) :
    (parties.set i t').countP holds + (if holds t then 1 else 0)
      = parties.countP holds + (if holds t' then 1 else 0) := by
  obtain ⟨hlt, rfl⟩ := List.getElem?_eq_some_iff.mp hi
  rw [List.countP_set hlt]
  have hpos : (if holds parties[i] then 1 else 0) ≤ parties.countP holds := by
    split
    · next hholds => exact List.countP_pos_iff.mpr ⟨_, List.getElem_mem hlt, hholds⟩
    · exact Nat.zero_le _
  omega

namespace Balanced

variable {free n i : Nat} {holds : τ → Bool} {parties : List τ} {t t' : τ}

/-- All permits are free. -/
theorem fresh (h : ∀ t ∈ parties, holds t = false) : Balanced n holds parties n := by
  have hcount : parties.countP holds = 0 :=
    List.countP_eq_zero.mpr fun t ht => by simp [h t ht]
  rw [Balanced, hcount, Nat.add_zero]

/-- A party that comes in without a permit. -/
theorem append (h : Balanced free holds parties n) (ht : holds t = false) :
    Balanced free holds (parties ++ [t]) n := by
  rw [Balanced, List.countP_append, List.countP_singleton, ht]
  exact h

/-- A party that holds as many permits after the step as before. -/
theorem keep (h : Balanced free holds parties n) (hi : parties[i]? = some t)
    (hsame : holds t' = holds t) : Balanced free holds (parties.set i t') n := by
  have hcount : (parties.set i t').countP holds + _ = _ := countP_set_add hi
  rw [hsame] at hcount
  rw [Balanced] at h ⊢
  omega

theorem take (h : Balanced free holds parties n) (hi : parties[i]? = some t) (hfree : 0 < free)
    (hbefore : holds t = false) (hafter : holds t' = true) :
    Balanced (free - 1) holds (parties.set i t') n := by
  have hcount : (parties.set i t').countP holds + _ = _ := countP_set_add hi
  rw [hbefore, hafter] at hcount
  simp only [Bool.false_eq_true, if_false, if_true] at hcount
  rw [Balanced] at h ⊢
  omega

theorem give (h : Balanced free holds parties n) (hi : parties[i]? = some t)
    (hbefore : holds t = true) (hafter : holds t' = false) :
    Balanced (free + 1) holds (parties.set i t') n := by
  have hcount : (parties.set i t').countP holds + _ = _ := countP_set_add hi
  rw [hbefore, hafter] at hcount
  simp only [Bool.false_eq_true, if_false, if_true] at hcount
  rw [Balanced] at h ⊢
  omega

/-- **The bound.** -/
theorem countP_le (h : Balanced free holds parties n) : parties.countP holds ≤ n := by
  rw [Balanced] at h
  omega

/-- When nothing is free, someone holds a permit. -/
theorem exists_holder (h : Balanced free holds parties n) (hfree : free = 0) (hn : 0 < n) :
    ∃ t ∈ parties, holds t = true := by
  apply List.countP_pos_iff.mp
  rw [Balanced] at h
  omega

end Balanced

end Gurted.Lib
