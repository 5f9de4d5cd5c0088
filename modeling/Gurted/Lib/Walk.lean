import Mathlib.Logic.Relation

/-!
# Walks along a partial function

At each place either something is found, or there may be a next place to look.
`follow` looks at a bounded number of places; `FoundAfter` says without a bound what is
found, and after how many links. `follow_eq_some_iff` connects the two.
-/

namespace Gurted.Lib.Walk

open Relation

variable {α β : Type*} (found : α → Option β) (next : α → Option α)

/-- One link: nothing is found here, and there is a next place. -/
def Link (a a' : α) : Prop := found a = none ∧ next a = some a'

/-- `b` is found after `k` links. -/
inductive FoundAfter : Nat → α → β → Prop
  | here {a b} : found a = some b → FoundAfter 0 a b
  | link {k a a' b} : Link found next a a' → FoundAfter k a' b → FoundAfter (k + 1) a b

/-- The links lead to a place where nothing is found and nothing follows. -/
def Ends (a : α) : Prop :=
  ∃ c, ReflTransGen (Link found next) a c ∧ found c = none ∧ next c = none

/-- The links lead to a place they come back to. -/
def Cyclic (a : α) : Prop :=
  ∃ c, ReflTransGen (Link found next) a c ∧ TransGen (Link found next) c c

/-- What is found at the first `n` places. -/
def follow : Nat → α → Option β
  | 0, _ => none
  | n + 1, a =>
      match found a with
      | some b => some b
      | none => (next a).bind (follow n)

variable {found next}

theorem follow_of_found {n : Nat} {a : α} {b : β} (h : found a = some b) :
    follow found next (n + 1) a = some b := by
  rw [follow, h]

theorem follow_of_link {n : Nat} {a a' : α} (h : Link found next a a') :
    follow found next (n + 1) a = follow found next n a' := by
  rw [follow, h.1, h.2]
  rfl

theorem follow_of_end {n : Nat} {a : α} (hfound : found a = none) (hnext : next a = none) :
    follow found next n a = none := by
  cases n with
  | zero => rfl
  | succ n => rw [follow, hfound, hnext]; rfl

/-- There is one link from a place. -/
theorem Link.unique {a a' a'' : α} (h : Link found next a a') (h' : Link found next a a'') :
    a' = a'' :=
  Option.some.inj (h.2.symm.trans h'.2)

/-- A link is passed by what is found behind it. -/
theorem FoundAfter.of_link {k : Nat} {a a' : α} {b : β} (hlink : Link found next a a')
    (h : FoundAfter found next k a b) : ∃ j, k = j + 1 ∧ FoundAfter found next j a' b := by
  cases h with
  | here hfound =>
    rw [hlink.1] at hfound
    cases hfound
  | link hlink' h =>
    rw [hlink.unique hlink']
    exact ⟨_, rfl, h⟩

/-- **One thing is found**, after one number of links. -/
theorem FoundAfter.unique {k k' : Nat} {a : α} {b b' : β} (h : FoundAfter found next k a b)
    (h' : FoundAfter found next k' a b') : k = k' ∧ b = b' := by
  induction h generalizing k' with
  | here hfound =>
    cases h' with
    | here hfound' => exact ⟨rfl, Option.some.inj (hfound.symm.trans hfound')⟩
    | link hlink' _ =>
      rw [hlink'.1] at hfound
      cases hfound
  | link hlink _ ih =>
    obtain ⟨j, rfl, hj⟩ := h'.of_link hlink
    obtain ⟨rfl, rfl⟩ := ih hj
    exact ⟨rfl, rfl⟩

/-- **A bounded walk** finds what is found after fewer links than it has places. -/
theorem follow_eq_some_iff {n : Nat} {a : α} {b : β} :
    follow found next n a = some b ↔ ∃ k < n, FoundAfter found next k a b := by
  constructor
  · intro h
    induction n generalizing a with
    | zero => cases h
    | succ n ih =>
      cases hfound : found a with
      | some b' =>
        rw [follow_of_found hfound] at h
        cases h
        exact ⟨0, Nat.succ_pos n, .here hfound⟩
      | none =>
        cases hnext : next a with
        | none =>
          rw [follow_of_end hfound hnext] at h
          cases h
        | some a' =>
          rw [follow_of_link ⟨hfound, hnext⟩] at h
          obtain ⟨k, hk, hafter⟩ := ih h
          exact ⟨k + 1, Nat.succ_lt_succ hk, .link ⟨hfound, hnext⟩ hafter⟩
  · rintro ⟨k, hk, h⟩
    induction h generalizing n with
    | here hfound =>
      obtain ⟨n, rfl⟩ := Nat.exists_eq_add_one_of_ne_zero (Nat.ne_of_gt hk)
      exact follow_of_found hfound
    | link hlink _ ih =>
      obtain ⟨n, rfl⟩ := Nat.exists_eq_add_one_of_ne_zero (Nat.ne_of_gt (Nat.zero_lt_of_lt hk))
      rw [follow_of_link hlink]
      exact ih (Nat.lt_of_succ_lt_succ hk)

/-- What is found is found from every place on the way, after no more links. -/
theorem FoundAfter.of_reflTransGen {k : Nat} {a c : α} {b : β}
    (hac : ReflTransGen (Link found next) a c) (h : FoundAfter found next k a b) :
    ∃ j, FoundAfter found next j c b := by
  induction hac with
  | refl => exact ⟨k, h⟩
  | tail _ hlink ih =>
    obtain ⟨i, hi⟩ := ih
    obtain ⟨j, -, hj⟩ := hi.of_link hlink
    exact ⟨j, hj⟩

theorem FoundAfter.of_transGen {k : Nat} {a c : α} {b : β}
    (hac : TransGen (Link found next) a c) (h : FoundAfter found next k a b) :
    ∃ j < k, FoundAfter found next j c b := by
  induction hac with
  | single hlink =>
    obtain ⟨j, rfl, hj⟩ := h.of_link hlink
    exact ⟨j, Nat.lt_succ_self j, hj⟩
  | tail _ hlink ih =>
    obtain ⟨i, hi, hafter⟩ := ih
    obtain ⟨j, rfl, hj⟩ := hafter.of_link hlink
    exact ⟨j, by omega, hj⟩

/-- On a cycle nothing is found. -/
theorem Cyclic.not_foundAfter {a : α} (h : Cyclic found next a) (k : Nat) (b : β) :
    ¬ FoundAfter found next k a b := by
  intro hafter
  obtain ⟨c, hac, hcc⟩ := h
  obtain ⟨i, hi⟩ := hafter.of_reflTransGen hac
  obtain ⟨j, hj, hafter'⟩ := hi.of_transGen hcc
  have := (hi.unique hafter').1
  omega

/-- Where the links end nothing is found. -/
theorem Ends.not_foundAfter {a : α} (h : Ends found next a) (k : Nat) (b : β) :
    ¬ FoundAfter found next k a b := by
  intro hafter
  obtain ⟨c, hac, hfound, hnext⟩ := h
  obtain ⟨j, hj⟩ := hafter.of_reflTransGen hac
  cases hj with
  | here hfound' =>
    rw [hfound] at hfound'
    cases hfound'
  | link hlink _ =>
    have hsome := hlink.2
    rw [hnext] at hsome
    cases hsome

end Gurted.Lib.Walk
