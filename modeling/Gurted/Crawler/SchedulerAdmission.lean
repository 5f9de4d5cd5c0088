import Gurted.Crawler.SchedulerLimits

/-!
# When a call gets its permits

`acquire` takes the global permit first and waits for its host with it in hand. A
call whose host has a permit left is therefore held up by the global semaphore
alone, and that one is empty as soon as calls for a busy host have queued up behind
each other with a global permit each.
-/

namespace Gurted.Crawler

open Gurted Gurted.Lib

/-- The drop of a permit. -/
def Action.isRelease : Action → Bool
  | .dropGlobal _ => true
  | .dropHost _ => true
  | _ => false

/-- The call holds or awaits a permit of the host. -/
def Task.usesHost (host : Str) (t : Task) : Bool := t.phase.usesSem.isSome && t.host == host

namespace HostScheduler

variable {maxInstant globalLimit perHostLimit : Nat} {s s' : HostScheduler} {a : Action}
  {i : Nat} {t : Task}

/-- An `acquire(host)` issued now can return with both permits before any permit is
released. -/
def Obtains (maxInstant : Nat) (s : HostScheduler) (host : Str) : Prop :=
  ∃ acts s', (∀ a ∈ acts, a.isRelease = false) ∧
    (Action.call host none :: acts).foldlM (step maxInstant) s = some s' ∧
    ∃ t, s'.tasks[s.tasks.length]? = some t ∧ t.holdsPair = true

/-! ## The way of a call that nothing holds up -/

/-- The scheduler with one more call for the host, at a point of its way. -/
def withCall (s : HostScheduler) (host : Str) (phase : Phase) : HostScheduler :=
  { s with tasks := s.tasks ++ [⟨host, none, phase, none, none⟩] }

theorem setTask_withCall (s : HostScheduler) (host : Str) (phase : Phase) (t : Task) :
    (s.withCall host phase).setTask s.tasks.length t = { s with tasks := s.tasks ++ [t] } := by
  show { s with tasks := (s.tasks ++ [_]).set s.tasks.length t } = _
  rw [List.set_append_right _ _ (Nat.le_refl _), Nat.sub_self]
  rfl

theorem step_acquireGlobal (maxInstant : Nat) (s : HostScheduler) (host : Str)
    (hfree : 0 < s.global) :
    (s.withCall host .acquireGlobal).step maxInstant (.move s.tasks.length)
      = some ({ s with global := s.global - 1 }.withCall host .hostSem) := by
  have hi : (s.withCall host .acquireGlobal).tasks[s.tasks.length]?
      = some ⟨host, none, .acquireGlobal, none, none⟩ := List.getElem?_concat_length
  simp only [step, hi, Option.bind_some, move]
  rw [if_pos (show 0 < (s.withCall host .acquireGlobal).global from hfree)]
  exact congrArg some (setTask_withCall { s with global := s.global - 1 } host _ _)

theorem step_hostSem (maxInstant : Nat) (s : HostScheduler) (host : Str) :
    (s.withCall host .hostSem).step maxInstant (.move s.tasks.length)
      = some ({ s with hosts := (s.hosts.getOrInsert host s.perHostLimit).2 }.withCall host
        (.acquireHost (s.hosts.getOrInsert host s.perHostLimit).1)) := by
  have hi : (s.withCall host .hostSem).tasks[s.tasks.length]?
      = some ⟨host, none, .hostSem, none, none⟩ := List.getElem?_concat_length
  simp only [step, hi, Option.bind_some, move]
  exact congrArg some (setTask_withCall
    { s with hosts := (s.hosts.getOrInsert host s.perHostLimit).2 } host _ _)

theorem step_acquireHost (maxInstant : Nat) (s : HostScheduler) (host : Str) {m free : Nat}
    (hcell : s.hosts.cells[m]? = some free) (hfree : 0 < free) :
    (s.withCall host (.acquireHost m)).step maxInstant (.move s.tasks.length)
      = some { s with
        hosts := s.hosts.set m (free - 1)
        tasks := s.tasks ++ [⟨host, none, .holding m, none, some s.now⟩] } := by
  have hi : (s.withCall host (.acquireHost m)).tasks[s.tasks.length]?
      = some ⟨host, none, .acquireHost m, none, none⟩ := List.getElem?_concat_length
  have hcell' : (s.withCall host (.acquireHost m)).hosts.cells[m]? = some free := hcell
  simp only [step, hi, Option.bind_some, move, hcell']
  rw [if_pos hfree]
  exact congrArg some (setTask_withCall
    { s with hosts := s.hosts.set m (free - 1) } host (.acquireHost m) _)

/-- Who holds a permit of the semaphore of a host is a call for that host. -/
theorem OwnSem.countP_holdsSem_le (h : s.OwnSem) {host : Str} {m : Nat}
    (hkey : s.hosts.keys[m]? = some host) {tasks : List Task} (hsub : tasks ⊆ s.tasks) :
    tasks.countP (Task.holdsSem m) ≤ tasks.countP (Task.usesHost host) := by
  apply List.countP_mono_left
  intro t ht hholds
  have huses : t.phase.usesSem = some m :=
    Phase.usesSem_of_holdsSem (by simpa [Task.holdsSem] using hholds)
  have hown := h t (hsub ht) m huses
  rw [hkey] at hown
  rw [Task.usesHost, huses, Option.some.inj hown]
  simp

/-- A call at the semaphore of its host finds a permit, because those who hold one are
calls for the host. -/
theorem Limited.exists_free {m : Nat} {host : Str}
    (h : (s.withCall host (.acquireHost m)).Limited globalLimit perHostLimit)
    (hkey : s.hosts.keys[m]? = some host)
    (hhost : s.tasks.countP (Task.usesHost host) < perHostLimit) :
    ∃ free, s.hosts.cells[m]? = some free ∧ 0 < free := by
  obtain ⟨free, hcell⟩ := s.hosts.exists_cell hkey
  refine ⟨free, hcell, ?_⟩
  have hbal := h.hosts m free hcell
  have hle := h.own.countP_holdsSem_le hkey (List.subset_append_left s.tasks _)
  have hnone : Task.holdsSem m ⟨host, none, .acquireHost m, none, none⟩ = false := rfl
  rw [h.limit, withCall, Lib.Balanced, List.countP_append, List.countP_singleton, hnone] at hbal
  simp only [Bool.false_eq_true, if_false] at hbal
  omega

/-- The three moves of the call: with a global permit free, and fewer calls for its
host than the host has permits, none of them waits. -/
theorem obtains_of_free {tr : List Action}
    (h : (scheduler maxInstant globalLimit perHostLimit).Run tr s) {host : Str}
    (hglobal : 0 < s.global) (hhost : s.tasks.countP (Task.usesHost host) < perHostLimit) :
    s.Obtains maxInstant host := by
  have hcall : s.step maxInstant (.call host none) = some (s.withCall host .acquireGlobal) := rfl
  have hfirst := step_acquireGlobal maxInstant s host hglobal
  have hsecond := step_hostSem maxInstant { s with global := s.global - 1 } host
  have hlimited := limited_of_run (((h.next hcall).next hfirst).next hsecond)
  have hkey := Registry.keys_getOrInsert_self s.hosts host s.perHostLimit
  obtain ⟨free, hcell, hfree⟩ := hlimited.exists_free hkey hhost
  have hthird := step_acquireHost maxInstant _ host hcell hfree
  have hrun := Lts.foldlM_of_step hcall <| Lts.foldlM_of_step hfirst <|
    Lts.foldlM_of_step hsecond <| Lts.foldlM_of_step hthird List.foldlM_nil
  refine ⟨_, _, ?_, hrun, _, List.getElem?_concat_length, rfl⟩
  intro a ha
  simp only [List.mem_cons, List.not_mem_nil, or_false, or_self] at ha
  rw [ha]
  rfl

/-! ## A call that the global semaphore holds up -/

/-- The call `i` waits at the global semaphore, which is empty. -/
def Stuck (i : Nat) (s : HostScheduler) : Prop :=
  s.global = 0 ∧ ∃ t, s.tasks[i]? = some t ∧ t.phase = .acquireGlobal

/-- A call at another point that goes on is another call. -/
theorem Stuck.keep (h : s.Stuck i) {j : Nat} {t t' : Task} (hj : s.tasks[j]? = some t)
    (hphase : t.phase ≠ .acquireGlobal) (hglobal : s'.global = s.global)
    (htasks : s'.tasks = s.tasks.set j t') : s'.Stuck i := by
  obtain ⟨hzero, x, hx, hwaits⟩ := h
  refine ⟨hglobal.trans hzero, x, ?_, hwaits⟩
  have hne : j ≠ i := by
    intro heq
    rw [heq, hx] at hj
    cases hj
    exact hphase hwaits
  rw [htasks, List.getElem?_set_ne hne]
  exact hx

theorem Stuck.append (h : s.Stuck i) {t : Task} (hglobal : s'.global = s.global)
    (htasks : s'.tasks = s.tasks ++ [t]) : s'.Stuck i := by
  obtain ⟨hzero, x, hx, hwaits⟩ := h
  refine ⟨hglobal.trans hzero, x, ?_, hwaits⟩
  obtain ⟨hlt, -⟩ := List.getElem?_eq_some_iff.mp hx
  rw [htasks, List.getElem?_append_left hlt]
  exact hx

/-- Only a release ends the wait. -/
theorem Steps.stuck (h : Steps maxInstant s a s') (ha : a.isRelease = false)
    (hstuck : s.Stuck i) : s'.Stuck i := by
  cases h with
  | call => exact hstuck.append rfl rfl
  | callPolite => exact hstuck.append rfl rfl
  | tick => exact hstuck
  | politeGate hi hphase => exact hstuck.keep hi (by rw [hphase]; simp) rfl rfl
  | lockGate hi hphase _ => exact hstuck.keep hi (by rw [hphase]; simp) rfl rfl
  | pass hi hphase _ _ _ => exact hstuck.keep hi (by rw [hphase]; simp) rfl rfl
  | wait hi hphase _ _ _ _ => exact hstuck.keep hi (by rw [hphase]; simp) rfl rfl
  | panic hi hphase _ _ _ _ => exact hstuck.keep hi (by rw [hphase]; simp) rfl rfl
  | sleep hi hphase => exact hstuck.keep hi (by rw [hphase]; simp) rfl rfl
  | wake hi hphase _ => exact hstuck.keep hi (by rw [hphase]; simp) rfl rfl
  | record hi hphase => exact hstuck.keep hi (by rw [hphase]; simp) rfl rfl
  | acquireGlobal _ _ hfree =>
    rw [hstuck.1] at hfree
    cases hfree
  | hostSem hi hphase => exact hstuck.keep hi (by rw [hphase]; simp) rfl rfl
  | acquireHost hi hphase _ _ => exact hstuck.keep hi (by rw [hphase]; simp) rfl rfl
  | dropGlobal => cases ha
  | dropGlobalLast => cases ha
  | dropHost => cases ha
  | dropHostLast => cases ha

theorem stuck_foldlM {acts : List Action} (hacts : ∀ a ∈ acts, a.isRelease = false)
    (h : acts.foldlM (step maxInstant) s = some s') (hstuck : s.Stuck i) : s'.Stuck i := by
  induction acts generalizing s with
  | nil =>
    cases h
    exact hstuck
  | cons a acts ih =>
    rw [List.foldlM_cons] at h
    obtain ⟨s₁, hstep, hrest⟩ := Option.bind_eq_some_iff.mp h
    have hfirst := (steps_of_step hstep).stuck (hacts a (by simp)) hstuck
    exact ih (fun b hb => hacts b (by simp [hb])) hrest hfirst

/-- With no global permit left, no call gets its pair before a release. -/
theorem not_obtains_of_global_eq_zero (hzero : s.global = 0) (host : Str) :
    ¬ s.Obtains maxInstant host := by
  intro hobtains
  obtain ⟨acts, s', hacts, hrun, t, ht, hpair⟩ := hobtains
  rw [List.foldlM_cons] at hrun
  obtain ⟨s₁, hcall, hrest⟩ := Option.bind_eq_some_iff.mp hrun
  cases hcall
  have hstuck : Stuck s.tasks.length
      { s with tasks := s.tasks ++ [⟨host, none, .acquireGlobal, none, none⟩] } := by
    exact ⟨hzero, ⟨host, none, .acquireGlobal, none, none⟩, List.getElem?_concat_length, rfl⟩
  obtain ⟨-, x, hx, hwaits⟩ := stuck_foldlM hacts hrest hstuck
  rw [ht] at hx
  cases hx
  rw [Task.holdsPair, hwaits] at hpair
  cases hpair

/-- **Who is not held up.** In every state of every run, a call for a host that fewer
calls use than it has permits gets both permits without a release exactly when fewer
calls than the limit hold a global permit, with or without one of their host. -/
theorem obtains_iff {tr : List Action}
    (h : (scheduler maxInstant globalLimit perHostLimit).Run tr s) (host : Str)
    (hhost : s.tasks.countP (Task.usesHost host) < perHostLimit) :
    s.Obtains maxInstant host ↔ s.tasks.countP Task.holdsGlobal < globalLimit := by
  have hbal := (limited_of_run h).global
  rw [Lib.Balanced] at hbal
  constructor
  · intro hobtains
    by_contra hfull
    exact not_obtains_of_global_eq_zero (by omega) host hobtains
  · intro hfree
    exact obtains_of_free h (by omega) hhost

/-- After the two calls one waits for a host, and holds the other global permit. -/
theorem obtains_iff_twoCalls :
    ((twoCalls.foldlM (step 100) (.new 3 1)).get (by decide)).Obtains 100 "b".toList ↔ 2 < 3 :=
  obtains_iff (Lts.run_get (show (twoCalls.foldlM (step 100) (.new 3 1)).isSome by decide))
    "b".toList (by decide)

/-- With two global permits one pair is held, `b` is not in use, and a call for `b`
waits for the release of the pair. -/
theorem not_obtains_twoCalls :
    ¬ ∀ (globalLimit perHostLimit maxInstant : Nat), 0 < perHostLimit →
      ∀ (tr : List Action) (s : HostScheduler) (host : Str),
        (scheduler maxInstant globalLimit perHostLimit).Run tr s →
        s.tasks.countP Task.holdsPair < globalLimit →
        s.tasks.countP (Task.usesHost host) < perHostLimit → s.Obtains maxInstant host := by
  intro hall
  have hobtains := hall 2 1 100 (by decide) twoCalls
    ((twoCalls.foldlM (step 100) (.new 2 1)).get (by decide)) "b".toList
    (Lts.run_get (show (twoCalls.foldlM (step 100) (.new 2 1)).isSome by decide))
    (by decide) (by decide)
  exact not_obtains_of_global_eq_zero (by decide) "b".toList hobtains

end HostScheduler

end Gurted.Crawler
