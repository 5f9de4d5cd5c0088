import Mathlib.Data.List.Induction

/-!
# Labelled transition systems and their runs

An `Lts` is an initial-state predicate and a labelled step relation. `Run` is a
finite run together with the labels it took, newest last, so that statements
about the history (what was done, in which order) are statements about a list.
Safety proofs use one rule, `Run.invariant`: what holds initially and is kept
by every permitted step holds after every run whose labels are permitted.
-/

namespace Gurted.Lib

/-- A labelled transition system over states `σ` and labels `α`. -/
structure Lts (σ α : Type*) where
  init : σ → Prop
  step : σ → α → σ → Prop

namespace Lts

variable {σ α : Type*} {T : Lts σ α}

/-- `T.Run tr s`: `s` is reached from an initial state by the labels `tr`. -/
inductive Run (T : Lts σ α) : List α → σ → Prop
  | start {s} : T.init s → Run T [] s
  | next {tr s a s'} : Run T tr s → T.step s a s' → Run T (tr ++ [a]) s'

/-- `I` is kept by every step whose label satisfies `P`, on any history. -/
structure Inductive (T : Lts σ α) (P : α → Prop) (I : List α → σ → Prop) : Prop where
  start : ∀ s, T.init s → I [] s
  next : ∀ tr s a s', P a → I tr s → T.step s a s' → I (tr ++ [a]) s'

/-- **The invariant rule.** -/
theorem Run.invariant {P : α → Prop} {I : List α → σ → Prop} (hI : T.Inductive P I)
    {tr : List α} {s : σ} (h : T.Run tr s) (hP : ∀ a ∈ tr, P a) : I tr s := by
  induction h with
  | start hs => exact hI.start _ hs
  | next hr hstep ih =>
    refine hI.next _ _ _ _ (hP _ (by simp)) (ih fun a ha => hP a ?_) hstep
    exact List.mem_append_left _ ha

/-- A system that can do what another does has its runs. -/
theorem Run.mono {T' : Lts σ α} {tr : List α} {s : σ} (h : T.Run tr s)
    (hinit : ∀ s, T.init s → T'.init s) (hstep : ∀ s a s', T.step s a s' → T'.step s a s') :
    T'.Run tr s := by
  induction h with
  | start hs => exact .start (hinit _ hs)
  | next _ h ih => exact .next ih (hstep _ _ _ h)

/-- The system started in another state. -/
def fromState (T : Lts σ α) (s₀ : σ) : Lts σ α := ⟨(· = s₀), T.step⟩

/-- A run goes on from where its first part has led. -/
theorem Run.split {pre post : List α} {s : σ} (h : T.Run (pre ++ post) s) :
    ∃ s₀, T.Run pre s₀ ∧ (T.fromState s₀).Run post s := by
  induction post using List.reverseRecOn generalizing s with
  | nil =>
    rw [List.append_nil] at h
    exact ⟨s, h, .start rfl⟩
  | append_singleton post a ih =>
    rw [← List.append_assoc] at h
    generalize htr : pre ++ post ++ [a] = tr at h
    cases h with
    | start hs => simp at htr
    | @next tr' s' b _ hrun hstep =>
      obtain ⟨hinit, hlast⟩ := List.append_inj' htr rfl
      cases hlast
      rw [← hinit] at hrun
      obtain ⟨s₀, hpre, hpost⟩ := ih hrun
      exact ⟨s₀, hpre, .next hpost hstep⟩

/-- A run whose first step is given. -/
theorem Run.uncons {a : α} {post : List α} {s₀ s : σ} (h : (T.fromState s₀).Run (a :: post) s) :
    ∃ s₁, T.step s₀ a s₁ ∧ (T.fromState s₁).Run post s := by
  have hsplit : (T.fromState s₀).Run ([a] ++ post) s := h
  obtain ⟨s₁, hfirst, hrest⟩ := hsplit.split
  generalize htr : [a] = tr at hfirst
  cases hfirst with
  | start hs => cases htr
  | @next tr' s' b _ hrun hstep =>
    have hone : [] ++ [a] = tr' ++ [b] := htr
    obtain ⟨hinit, hlast⟩ := List.append_inj' hone rfl
    cases hlast
    cases hrun with
    | start hs =>
      cases hs
      exact ⟨s₁, hstep, hrest⟩
    | next => simp at hinit

/-- A run goes on. -/
theorem Run.trans {pre post : List α} {s₀ s : σ} (hpre : T.Run pre s₀)
    (hpost : (T.fromState s₀).Run post s) : T.Run (pre ++ post) s := by
  induction hpost with
  | start hs =>
    cases hs
    rwa [List.append_nil]
  | next _ hstep ih =>
    rw [← List.append_assoc]
    exact .next ih hstep

/-! ## What a run has gone through -/

/-- The run `tr` to `s` was in `s₀` after the labels `pre`. -/
structure Passed (T : Lts σ α) (tr : List α) (s : σ) (pre : List α) (s₀ : σ) : Prop where
  run : T.Run pre s₀
  rest : ∃ post, tr = pre ++ post ∧ (T.fromState s₀).Run post s

section Passed
variable {tr pre mid : List α} {s s₀ s₁ : σ}

theorem Run.passed (h : T.Run tr s) : T.Passed tr s tr s :=
  ⟨h, [], (List.append_nil tr).symm, .start rfl⟩

theorem Passed.next (h : T.Passed tr s pre s₀) {a : α} {s' : σ} (hstep : T.step s a s') :
    T.Passed (tr ++ [a]) s' pre s₀ := by
  obtain ⟨post, rfl, hpost⟩ := h.rest
  exact ⟨h.run, post ++ [a], List.append_assoc .., hpost.next hstep⟩

/-- What a part of the run was in. -/
theorem Passed.trans (h : T.Passed tr s mid s₁) (h' : T.Passed mid s₁ pre s₀) :
    T.Passed tr s pre s₀ := by
  obtain ⟨post, rfl, hpost⟩ := h.rest
  obtain ⟨post', rfl, hpost'⟩ := h'.rest
  have hall : (T.fromState s₀).Run (post' ++ post) s := hpost'.trans hpost
  exact ⟨h'.run, post' ++ post, List.append_assoc .., hall⟩

theorem Passed.isPrefix (h : T.Passed tr s pre s₀) : pre <+: tr := by
  obtain ⟨post, rfl, -⟩ := h.rest
  exact List.prefix_append pre post

end Passed

/-- The run `tr` to `s` was in a state with the property. -/
def Past (T : Lts σ α) (tr : List α) (s : σ) (P : σ → Prop) : Prop :=
  ∃ pre s₀, T.Passed tr s pre s₀ ∧ P s₀

section Past
variable {P Q : σ → Prop} {tr : List α} {s : σ}

theorem Run.past (h : T.Run tr s) (hP : P s) : T.Past tr s P := ⟨tr, s, h.passed, hP⟩

theorem Past.next (h : T.Past tr s P) {a : α} {s' : σ} (hstep : T.step s a s') :
    T.Past (tr ++ [a]) s' P := by
  obtain ⟨pre, s₀, hpassed, hP⟩ := h
  exact ⟨pre, s₀, hpassed.next hstep, hP⟩

theorem Past.mono (h : T.Past tr s P) (hPQ : ∀ s, P s → Q s) : T.Past tr s Q := by
  obtain ⟨pre, s₀, hpassed, hP⟩ := h
  exact ⟨pre, s₀, hpassed, hPQ s₀ hP⟩

/-- What held in the past and has a past of its own. -/
theorem Past.bind (h : T.Past tr s P)
    (hPQ : ∀ pre s₀, T.Passed tr s pre s₀ → P s₀ → T.Past pre s₀ Q) : T.Past tr s Q := by
  obtain ⟨pre, s₀, hpassed, hP⟩ := h
  obtain ⟨pre', s₁, hpassed', hQ⟩ := hPQ pre s₀ hpassed hP
  exact ⟨pre', s₁, hpassed.trans hpassed', hQ⟩

end Past

/-- The runs whose steps all meet a condition on the state and the label. -/
def restrict (T : Lts σ α) (P : σ → α → Prop) : Lts σ α :=
  ⟨T.init, fun s a s' => P s a ∧ T.step s a s'⟩

/-- **Failures that stay.** If a step leads to a failure exactly from one or against the
condition, then the runs without failure are those whose steps all meet it. -/
theorem Run.restrict_iff {P : σ → α → Prop} {Bad : σ → Prop} (hinit : ∀ s, T.init s → ¬ Bad s)
    (hstep : ∀ tr s a s', T.Run tr s → T.step s a s' → (Bad s' ↔ Bad s ∨ ¬ P s a))
    {tr : List α} {s : σ} (h : T.Run tr s) : ¬ Bad s ↔ (T.restrict P).Run tr s := by
  constructor
  · intro hgood
    induction h with
    | start hs => exact .start hs
    | next hr hst ih =>
      rw [hstep _ _ _ _ hr hst, not_or, not_not] at hgood
      exact .next (ih hgood.1) ⟨hgood.2, hst⟩
  · intro hrun
    clear h
    induction hrun with
    | start hs => exact hinit _ hs
    | next hr hst ih =>
      have hrun : T.Run _ _ := hr.mono (fun _ hs => hs) fun _ _ _ hs => hs.2
      rw [hstep _ _ _ _ hrun hst.2, not_or, not_not]
      exact ⟨ih, hst.1⟩

/-! ## Executable systems -/

/-- The system of a partial step function from one initial state. -/
def ofStep (init : σ) (step : σ → α → Option σ) : Lts σ α :=
  ⟨(· = init), fun s a s' => step s a = some s'⟩

theorem foldlM_of_step {step : σ → α → Option σ} {s s₁ s' : σ} {a : α} {acts : List α}
    (h : step s a = some s₁) (hrest : acts.foldlM step s₁ = some s') :
    (a :: acts).foldlM step s = some s' := by
  rw [List.foldlM_cons, h]
  exact hrest

/-- Executing labels gives a run. -/
theorem run_of_foldlM {init s : σ} {step : σ → α → Option σ} {tr : List α}
    (h : tr.foldlM step init = some s) : (ofStep init step).Run tr s := by
  induction tr using List.reverseRecOn generalizing s with
  | nil =>
    cases h
    exact .start rfl
  | append_singleton tr a ih =>
    rw [List.foldlM_append] at h
    obtain ⟨s₁, h₁, h₂⟩ := Option.bind_eq_some_iff.mp h
    rw [List.foldlM_cons] at h₂
    obtain ⟨s₂, hstep, heq⟩ := Option.bind_eq_some_iff.mp h₂
    cases heq
    exact .next (ih h₁) hstep

/-- A step function that takes no step against a condition. -/
def guarded (P : σ → α → Prop) [∀ s a, Decidable (P s a)] (step : σ → α → Option σ) (s : σ)
    (a : α) : Option σ :=
  if P s a then step s a else none

/-- Executing labels under a condition gives a run of the restricted system. -/
theorem restrict_run_of_foldlM {init s : σ} {step : σ → α → Option σ} {P : σ → α → Prop}
    [∀ s a, Decidable (P s a)] {tr : List α} (h : tr.foldlM (guarded P step) init = some s) :
    ((ofStep init step).restrict P).Run tr s := by
  refine (run_of_foldlM h).mono (fun _ hs => hs) fun s a s' hstep => ?_
  change guarded P step s a = some s' at hstep
  rw [guarded] at hstep
  split at hstep
  · next hP => exact ⟨hP, hstep⟩
  · cases hstep

/-- What labels lead to, when all of them can be taken. -/
theorem run_get {init : σ} {step : σ → α → Option σ} {tr : List α}
    (h : (tr.foldlM step init).isSome) : (ofStep init step).Run tr ((tr.foldlM step init).get h) :=
  run_of_foldlM (Option.some_get h).symm

end Lts

end Gurted.Lib
