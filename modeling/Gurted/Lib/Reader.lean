import Mathlib.Data.List.Basic

/-!
# Calls that read

A reader takes a result off the front of what is still to arrive and leaves the
rest. It is `Sequential` if its result rests on what it took: what it leaves could as
well be something else. A call of a sequential reader can then be followed one arrival
at a time, and `poll` says whether it has returned.
-/

namespace Gurted.Lib

variable {A R X St : Type*}

/-- A function from the arrivals still to come to a result and those it leaves. -/
abbrev Reader (A R : Type*) := List A → R × List A

/-- The call returns `r` after exactly the arrivals `taken`. -/
def Returns (read : Reader A R) (taken : List A) (r : R) : Prop :=
  ∀ t, read (taken ++ t) = (r, t)

/-- Where a call leaves something, it has returned before it. -/
def Sequential (read : Reader A R) : Prop :=
  ∀ (s : List A) (r : R) (a : A) (rest : List A), read s = (r, a :: rest) →
    ∃ taken, s = taken ++ a :: rest ∧ Returns read taken r

/-! ## Following a call -/

/-- What a call has returned after the arrivals `taken`: it is asked whether it would
leave one more of them. -/
def poll (probe : A) (read : Reader A R) (taken : List A) : Option R :=
  match read (taken ++ [probe]) with
  | (r, [_]) => some r
  | _ => none

/-- A call returns once. -/
theorem Returns.eq_nil {read : Reader A R} {taken more : List A} {r r' : R}
    (h : Returns read taken r) (h' : Returns read (taken ++ more) r') : more = [] := by
  have hnow := h (more ++ [])
  have hlater := h' []
  rw [List.append_assoc, hnow, List.append_nil] at hlater
  exact (Prod.ext_iff.mp hlater).2

theorem Returns.poll {read : Reader A R} {taken : List A} {r : R} (h : Returns read taken r)
    (probe : A) : poll probe read taken = some r := by
  rw [Lib.poll, h [probe]]

theorem Sequential.returns_of_leaves {read : Reader A R} (hread : Sequential read)
    {taken : List A} {r : R} {a : A} (h : read (taken ++ [a]) = (r, [a])) :
    Returns read taken r := by
  obtain ⟨taken', hcut, hreturns⟩ := hread _ _ _ _ h
  rw [List.append_cancel_right hcut]
  exact hreturns

/-- **`poll`** sees that a call has returned, and only that. -/
theorem Sequential.poll_eq_some_iff {read : Reader A R} (hread : Sequential read) {probe : A}
    {taken : List A} {r : R} : poll probe read taken = some r ↔ Returns read taken r := by
  constructor
  · intro h
    rw [Lib.poll] at h
    split at h
    · next r' a hleaves =>
      cases h
      obtain ⟨taken', hcut, hreturns⟩ := hread _ _ _ _ hleaves
      rw [(List.append_inj' hcut rfl).1]
      exact hreturns
    · cases h
  · intro h
    exact h.poll probe

/-- A call that will return later has not returned yet. -/
theorem Sequential.poll_eq_none {read : Reader A R} (hread : Sequential read) {probe : A}
    {taken more : List A} {r : R} (h : Returns read (taken ++ more) r) (hmore : more ≠ []) :
    poll probe read taken = none := by
  cases hpoll : poll probe read taken with
  | none => rfl
  | some r' => exact absurd ((hread.poll_eq_some_iff.mp hpoll).eq_nil h) hmore

/-! ## Building readers -/

theorem returns_pure (r : R) : Returns (fun s : List A => (r, s)) [] r := fun _ => rfl

theorem Sequential.pure (r : R) : Sequential fun s : List A => (r, s) := by
  intro s r' a rest h
  cases h
  exact ⟨[], rfl, returns_pure r⟩

/-- One call and then another, unless the first one fails. -/
def andThen {E : Type*} (first : Reader A (Except E X)) (next : X → Reader A (Except E R)) :
    Reader A (Except E R) := fun s =>
  match first s with
  | (.error e, s') => (.error e, s')
  | (.ok x, s') => next x s'

theorem Returns.andThen {E : Type*} {first : Reader A (Except E X)}
    {next : X → Reader A (Except E R)} {taken₁ taken₂ : List A} {x : X} {r : Except E R}
    (h₁ : Returns first taken₁ (.ok x)) (h₂ : Returns (next x) taken₂ r) :
    Returns (andThen first next) (taken₁ ++ taken₂) r := by
  intro t
  rw [Lib.andThen, List.append_assoc, h₁ (taken₂ ++ t)]
  exact h₂ t

theorem Sequential.andThen {E : Type*} {first : Reader A (Except E X)}
    {next : X → Reader A (Except E R)} (hfirst : Sequential first)
    (hnext : ∀ x, Sequential (next x)) : Sequential (andThen first next) := by
  intro s r a rest h
  rw [Lib.andThen] at h
  split at h
  · next e s' hfail =>
    cases h
    obtain ⟨taken, hcut, hreturns⟩ := hfirst _ _ _ _ hfail
    refine ⟨taken, hcut, fun t => ?_⟩
    rw [Lib.andThen, hreturns t]
  · next x s' hok =>
    obtain ⟨taken₂, rfl, hreturns₂⟩ := hnext x _ _ _ _ h
    -- what the second call leaves, the first one has left
    obtain ⟨b, left, hleft⟩ : ∃ b left, taken₂ ++ a :: rest = b :: left :=
      List.exists_cons_of_ne_nil (by simp)
    rw [hleft] at hok
    obtain ⟨taken₁, hcut, hreturns₁⟩ := hfirst _ _ _ _ hok
    rw [← hleft, ← List.append_assoc] at hcut
    exact ⟨taken₁ ++ taken₂, hcut, hreturns₁.andThen hreturns₂⟩

/-- What one turn of a loop can do: return at once, or take an arrival and return
or go on; without an arrival it ends. -/
def Turns (f : St → Reader A R) : Prop :=
  ∀ st, (∃ r, ∀ t, f st t = (r, t)) ∨
    ((f st []).2 = [] ∧
      ∀ a, (∃ r, ∀ t, f st (a :: t) = (r, t)) ∨ ∃ st', ∀ t, f st (a :: t) = f st' t)

/-- **Loops** are sequential. -/
theorem Turns.sequential {f : St → Reader A R} (hf : Turns f) (st : St) : Sequential (f st) := by
  intro s
  induction s generalizing st with
  | nil =>
    intro r a rest h
    rcases hf st with ⟨r', hret⟩ | ⟨hnil, -⟩
    · rw [hret] at h
      cases h
    · rw [h] at hnil
      cases hnil
  | cons x s ih =>
    intro r a rest h
    rcases hf st with ⟨r', hret⟩ | ⟨-, hturn⟩
    · rw [hret] at h
      cases h
      exact ⟨[], rfl, hret⟩
    · rcases hturn x with ⟨r', hret⟩ | ⟨st', hgo⟩
      · rw [hret] at h
        cases h
        exact ⟨[x], rfl, hret⟩
      · rw [hgo] at h
        obtain ⟨taken, hcut, hreturns⟩ := ih st' _ _ _ h
        refine ⟨x :: taken, by rw [hcut, List.cons_append], fun t => ?_⟩
        rw [List.cons_append, hgo]
        exact hreturns t

end Gurted.Lib
