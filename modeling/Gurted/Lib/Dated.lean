import Gurted.Lib.Lts

/-!
# Entries with a date

Parties of a system hold values under keys and store them, with the instant at which they do
so; nothing is said about how entries get lost. A value is `Current` if a party holds it or an
entry that is young enough has it. `Dated.past_of_current` says that a party has held it within
the time to live, and `Dated.since_of_current` that once the time to live has passed since a
state, a party has held it after this state.
-/

namespace Gurted.Lib.Lts

variable {σ α κ υ : Type*} {T : Lts σ α} {now : σ → Nat} {held : σ → κ → υ → Prop}
  {stored : σ → κ → υ → Nat → Prop}

/-- Time does not go back, and what a step stores is held, and gets the instant of the step. -/
structure Dated (T : Lts σ α) (now : σ → Nat) (held : σ → κ → υ → Prop)
    (stored : σ → κ → υ → Nat → Prop) : Prop where
  now_le : ∀ s a s', T.step s a s' → now s ≤ now s'
  stored_of_step : ∀ s a s', T.step s a s' → ∀ k v t, stored s' k v t →
    stored s k v t ∨ t = now s ∧ held s k v

/-- A party holds the value, or it is stored and no older than the time to live. -/
def Current (now : σ → Nat) (held : σ → κ → υ → Prop) (stored : σ → κ → υ → Nat → Prop)
    (ttl : Nat) (s : σ) (k : κ) (v : υ) : Prop :=
  held s k v ∨ ∃ t, stored s k v t ∧ now s - t ≤ ttl

theorem Dated.fromState (h : T.Dated now held stored) (s₀ : σ) :
    (T.fromState s₀).Dated now held stored :=
  ⟨h.now_le, h.stored_of_step⟩

/-- **Where an entry comes from**: it was there at first, or a party held its value at its
instant. -/
theorem Dated.past (h : T.Dated now held stored) {tr : List α} {s : σ} (hrun : T.Run tr s)
    {k : κ} {v : υ} {t : Nat} (hstored : stored s k v t) :
    (∃ s₀, T.init s₀ ∧ stored s₀ k v t) ∨
      t ≤ now s ∧ T.Past tr s fun s₀ => now s₀ = t ∧ held s₀ k v := by
  induction hrun with
  | start hs => exact .inl ⟨_, hs, hstored⟩
  | @next tr s a s' hrun hstep ih =>
    have hle := h.now_le _ _ _ hstep
    rcases h.stored_of_step _ _ _ hstep k v t hstored with hold | ⟨rfl, hheld⟩
    · refine (ih hold).imp_right fun hpast => ⟨Nat.le_trans hpast.1 hle, hpast.2.next hstep⟩
    · have hnow : T.Past tr s fun s₀ => now s₀ = now s ∧ held s₀ k v := hrun.past ⟨rfl, hheld⟩
      exact .inr ⟨hle, hnow.next hstep⟩

section Empty
variable (hempty : ∀ s, T.init s → ∀ k v t, ¬ stored s k v t)
include hempty

/-- Where nothing is stored at first, a party has held each value. -/
theorem Dated.held_past (h : T.Dated now held stored) {tr : List α} {s : σ} (hrun : T.Run tr s)
    {k : κ} {v : υ} {t : Nat} (hstored : stored s k v t) :
    t ≤ now s ∧ T.Past tr s fun s₀ => now s₀ = t ∧ held s₀ k v := by
  refine (h.past hrun hstored).resolve_left ?_
  rintro ⟨s₀, hinit, hfirst⟩
  exact hempty s₀ hinit k v t hfirst

/-- **How old a value is**: a party held it no longer ago than the time to live. -/
theorem Dated.past_of_current (h : T.Dated now held stored) {tr : List α} {s : σ}
    (hrun : T.Run tr s) {ttl : Nat} {k : κ} {v : υ}
    (hcurrent : Current now held stored ttl s k v) :
    T.Past tr s fun s₀ => now s ≤ now s₀ + ttl ∧ held s₀ k v := by
  rcases hcurrent with hheld | ⟨t, hstored, hyoung⟩
  · have hle : now s ≤ now s + ttl := Nat.le_add_right _ _
    exact hrun.past (P := fun s₀ => now s ≤ now s₀ + ttl ∧ held s₀ k v) ⟨hle, hheld⟩
  · refine (h.held_past hempty hrun hstored).2.mono fun s₀ hs₀ => ⟨?_, hs₀.2⟩
    have hdate := hs₀.1
    omega

/-- **Values are renewed**: after the time to live a party held it since the state. -/
theorem Dated.since_of_current (h : T.Dated now held stored) {pre post : List α} {s₁ s : σ}
    (hpre : T.Run pre s₁) (hpost : (T.fromState s₁).Run post s) {ttl : Nat}
    (hlater : now s₁ + ttl < now s) {k : κ} {v : υ}
    (hcurrent : Current now held stored ttl s k v) :
    (T.fromState s₁).Past post s fun s₀ => held s₀ k v := by
  rcases hcurrent with hheld | ⟨t, hstored, hyoung⟩
  · exact hpost.past (P := fun s₀ => held s₀ k v) hheld
  · rcases (h.fromState s₁).past hpost hstored with ⟨s₀, rfl, hfirst⟩ | ⟨-, hpast⟩
    · -- an entry of the state itself is too old by now
      have hle := (h.held_past hempty hpre hfirst).1
      omega
    · exact hpast.mono fun s₀ hs₀ => hs₀.2

end Empty

end Gurted.Lib.Lts
