import Gurted.Lib.Permits

/-!
# A cell that is filled once

One party at a time may try to fill the cell; the others wait for it or go without. A
party that fails gives the cell up, so that another can try. What a full cell holds never
changes (`Extends`), and a cell is busy exactly while one party holds it (`Held`).
-/

namespace Gurted.Lib

inductive OnceCell (α : Type*) where
  | empty
  /-- A party is trying to fill it. -/
  | busy
  | full (a : α)
  deriving DecidableEq, Repr

namespace OnceCell

variable {α τ : Type*}

def get? : OnceCell α → Option α
  | full a => some a
  | _ => none

/-- A party starts to fill an empty cell; any other cell has to be waited for. -/
def take : OnceCell α → Option (OnceCell α)
  | empty => some busy
  | _ => none

/-- A value from outside: it is dropped unless the cell is empty. -/
def set (a : α) : OnceCell α → OnceCell α
  | empty => full a
  | c => c

/-- Whatever the cell holds, it still holds. -/
def Extends (c c' : OnceCell α) : Prop := ∀ a, c = full a → c' = full a

theorem Extends.refl (c : OnceCell α) : c.Extends c := fun _ h => h

theorem Extends.of_ne_full {c c' : OnceCell α} (h : ∀ a, c ≠ full a) : c.Extends c' :=
  fun a ha => absurd ha (h a)

theorem extends_set (a : α) (c : OnceCell α) : c.Extends (c.set a) := by
  intro b h
  rw [h]
  rfl

theorem take_eq_some {c c' : OnceCell α} (h : c.take = some c') : c = empty ∧ c' = busy := by
  cases c with
  | empty =>
    cases h
    exact ⟨rfl, rfl⟩
  | busy => cases h
  | full a => cases h

/-- How many parties hold the cell. -/
def holders : OnceCell α → Nat
  | busy => 1
  | _ => 0

/-- The cell is busy exactly while one of the parties holds it. -/
def Held (c : OnceCell α) (holds : τ → Bool) (parties : List τ) : Prop :=
  parties.countP holds = c.holders

namespace Held

variable {c : OnceCell α} {holds : τ → Bool} {parties : List τ} {i : Nat} {t t' : τ}

theorem fresh (holds : τ → Bool) : (empty : OnceCell α).Held holds [] := rfl

/-- A party that comes in without the cell. -/
theorem append (h : c.Held holds parties) (ht : holds t = false) :
    c.Held holds (parties ++ [t]) := by
  rw [Held, List.countP_append, List.countP_singleton, ht]
  exact h

/-- A party that holds the cell after the step if it did before. -/
theorem keep (h : c.Held holds parties) (hi : parties[i]? = some t) (hsame : holds t' = holds t) :
    c.Held holds (parties.set i t') := by
  have hcount : (parties.set i t').countP holds + _ = _ := countP_set_add hi
  rw [hsame] at hcount
  rw [Held] at h ⊢
  omega

theorem take (h : (empty : OnceCell α).Held holds parties) (hi : parties[i]? = some t)
    (hbefore : holds t = false) (hafter : holds t' = true) :
    (busy : OnceCell α).Held holds (parties.set i t') := by
  have hcount : (parties.set i t').countP holds + _ = _ := countP_set_add hi
  rw [hbefore, hafter] at hcount
  simp only [Bool.false_eq_true, if_false, if_true] at hcount
  simp only [Held, holders] at h ⊢
  omega

/-- A party that has the cell finds it busy. -/
theorem busy_of_holds (h : c.Held holds parties) (hi : parties[i]? = some t)
    (ht : holds t = true) : c = busy := by
  have hpos : 0 < parties.countP holds :=
    List.countP_pos_iff.mpr ⟨t, List.mem_of_getElem? hi, ht⟩
  rw [Held] at h
  cases c with
  | busy => rfl
  | empty => simp only [holders] at h; omega
  | full a => simp only [holders] at h; omega

/-- The party that holds the cell lets go of it, with a value or without. -/
theorem leave (h : c.Held holds parties) (hi : parties[i]? = some t) (hbefore : holds t = true)
    (hafter : holds t' = false) {c' : OnceCell α} (hc' : c' ≠ busy) :
    c'.Held holds (parties.set i t') := by
  have hcount : (parties.set i t').countP holds + _ = _ := countP_set_add hi
  rw [hbefore, hafter] at hcount
  simp only [Bool.false_eq_true, if_false, if_true] at hcount
  rw [h.busy_of_holds hi hbefore] at h
  simp only [Held, holders] at h
  have hzero : c'.holders = 0 := by cases c' <;> first | rfl | exact absurd rfl hc'
  rw [Held, hzero]
  omega

/-- A value from outside is no matter of the parties. -/
theorem set (h : c.Held holds parties) (a : α) : (c.set a).Held holds parties := by
  cases c with
  | empty => exact h
  | busy => exact h
  | full b => exact h

/-- **One at a time.** -/
theorem countP_le_one (h : c.Held holds parties) : parties.countP holds ≤ 1 := by
  rw [h, holders.eq_def]
  split <;> omega

/-- A busy cell has a holder. -/
theorem exists_holder (h : (busy : OnceCell α).Held holds parties) :
    ∃ t ∈ parties, holds t = true := by
  apply List.countP_pos_iff.mp
  simp only [Held, holders] at h
  omega

end Held

end OnceCell

end Gurted.Lib
