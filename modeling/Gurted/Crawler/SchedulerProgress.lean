import Gurted.Crawler.SchedulerGates
import Gurted.Crawler.SchedulerLimits

/-!
# The scheduler does not deadlock

A call that waits for a gate, a global permit or a permit of its host waits for what
other calls hold. Who has a gate locked waits for nothing but time, who holds a
permit of a host waits for nothing, and who holds a global permit waits at most for
one of a host. So in every state some call can go on.
-/

namespace Gurted.Crawler

open Gurted Gurted.Lib

/-- The call waits: for a lock, for the end of its sleep, or for a permit. -/
def Phase.isWaiting : Phase → Bool
  | .lockGate _ => true
  | .sleeping _ _ => true
  | .acquireGlobal => true
  | .acquireHost _ => true
  | _ => false

/-- The call waits for what another call may hold. -/
def Phase.isBlocked : Phase → Bool
  | .lockGate _ => true
  | .acquireGlobal => true
  | .acquireHost _ => true
  | _ => false

/-- Nothing is left to do. -/
def Phase.isOver : Phase → Bool
  | .finished => true
  | .panicked => true
  | _ => false

namespace HostScheduler

variable {maxInstant globalLimit perHostLimit : Nat} {s : HostScheduler} {i : Nat} {t : Task}

/-- The call `i` can go on or drop a permit; or it is asleep, and can go on once
enough time has passed. -/
def CanStep (maxInstant : Nat) (s : HostScheduler) (i : Nat) : Prop :=
  (∃ a ∈ [Action.move i, .dropGlobal i, .dropHost i], (s.step maxInstant a).isSome) ∨
    ∃ t g deadline n s₁, s.tasks[i]? = some t ∧ t.phase = .sleeping g deadline ∧
      s.step maxInstant (.tick n) = some s₁ ∧ (s₁.step maxInstant (.move i)).isSome

theorem CanStep.move (hi : s.tasks[i]? = some t) (h : (s.move maxInstant i t).isSome) :
    s.CanStep maxInstant i := by
  refine .inl ⟨.move i, by simp, ?_⟩
  simp only [step, hi, Option.bind_some]
  exact h

/-- Only the gate, a global permit and a permit of the host can hold a call up. -/
theorem canStep_of_not_blocked (hlimited : s.Limited globalLimit perHostLimit) (hgated : s.Gated)
    (hi : s.tasks[i]? = some t) (hfree : t.phase.isBlocked = false)
    (hover : t.phase.isOver = false) : s.CanStep maxInstant i := by
  have hmem : t ∈ s.tasks := List.mem_of_getElem? hi
  cases hphase : t.phase with
  | politeGate => exact .move hi (by simp [HostScheduler.move, hphase])
  | lockGate g =>
    rw [hphase] at hfree
    cases hfree
  | readGate g =>
    obtain ⟨last, hgate⟩ := (hgated.exclusive g i).mpr ⟨t, hi, by rw [hphase]; rfl⟩
    obtain ⟨delay, hdelay⟩ := Option.isSome_iff_exists.mp
      (hgated.own.delay t hmem (by rw [hphase]; rfl))
    exact .move hi (by simp [HostScheduler.move, hphase, hgate, hdelay])
  | sleep g wait => exact .move hi (by simp [HostScheduler.move, hphase])
  | sleeping g deadline =>
    refine .inr ⟨t, g, deadline, deadline, _, hi, hphase, rfl, ?_⟩
    simp only [step, hi, Option.bind_some, HostScheduler.move, hphase]
    rw [if_pos (by omega)]
    rfl
  | record g => exact .move hi (by simp [HostScheduler.move, hphase])
  | acquireGlobal =>
    rw [hphase] at hfree
    cases hfree
  | hostSem => exact .move hi (by simp [HostScheduler.move, hphase])
  | acquireHost m =>
    rw [hphase] at hfree
    cases hfree
  | holding m => exact .inl ⟨.dropGlobal i, by simp, by simp [step, hi, hphase]⟩
  | globalDropped m =>
    obtain ⟨free, hcell⟩ := s.hosts.exists_cell (hlimited.own t hmem m (by rw [hphase]; rfl))
    exact .inl ⟨.dropHost i, by simp, by simp [step, hi, hphase, hcell]⟩
  | hostDropped m => exact .inl ⟨.dropGlobal i, by simp, by simp [step, hi, hphase]⟩
  | finished =>
    rw [hphase] at hover
    cases hover
  | panicked =>
    rw [hphase] at hover
    cases hover

/-- **At a gate**: it is free, or the call that has it locked can go on. -/
theorem exists_canStep_of_lockGate (hlimited : s.Limited globalLimit perHostLimit)
    (hgated : s.Gated) {g : Nat} (hi : s.tasks[i]? = some t) (hphase : t.phase = .lockGate g) :
    ∃ j, s.CanStep maxInstant j := by
  obtain ⟨⟨owner, last⟩, hgate⟩ := s.polite.exists_cell
    (hgated.own.key t (List.mem_of_getElem? hi) g (by rw [hphase]; rfl))
  cases owner with
  | none => exact ⟨i, .move hi (by simp [HostScheduler.move, hphase, hgate])⟩
  | some j =>
    obtain ⟨t', hj, howns⟩ := (hgated.exclusive g j).mp ⟨last, hgate⟩
    refine ⟨j, canStep_of_not_blocked hlimited hgated hj ?_ ?_⟩ <;>
      cases hphase' : t'.phase <;> rw [hphase'] at howns <;> first | rfl | cases howns

/-- **At the semaphore of a host**: a permit is free, or its holder can go on. -/
theorem exists_canStep_of_acquireHost (hhost : 0 < perHostLimit)
    (hlimited : s.Limited globalLimit perHostLimit) (hgated : s.Gated) {m : Nat}
    (hi : s.tasks[i]? = some t) (hphase : t.phase = .acquireHost m) :
    ∃ j, s.CanStep maxInstant j := by
  obtain ⟨free, hcell⟩ := s.hosts.exists_cell
    (hlimited.own t (List.mem_of_getElem? hi) m (by rw [hphase]; rfl))
  by_cases hfree : free = 0
  · have hbal := hlimited.hosts m free hcell
    rw [hlimited.limit] at hbal
    obtain ⟨t', ht', hholds⟩ := hbal.exists_holder hfree hhost
    obtain ⟨j, hj⟩ := List.mem_iff_getElem?.mp ht'
    rw [Task.holdsSem] at hholds
    refine ⟨j, canStep_of_not_blocked hlimited hgated hj ?_ ?_⟩ <;>
      cases hphase' : t'.phase <;> rw [hphase'] at hholds <;> first | rfl | cases hholds
  · exact ⟨i, .move hi (by simp [HostScheduler.move, hphase, hcell, Nat.pos_of_ne_zero hfree])⟩

/-- **At the global semaphore**: a permit is free, or its holder waits for one of its
host at most. -/
theorem exists_canStep_of_acquireGlobal (hglobal : 0 < globalLimit) (hhost : 0 < perHostLimit)
    (hlimited : s.Limited globalLimit perHostLimit) (hgated : s.Gated)
    (hi : s.tasks[i]? = some t) (hphase : t.phase = .acquireGlobal) :
    ∃ j, s.CanStep maxInstant j := by
  by_cases hfree : s.global = 0
  · obtain ⟨t', ht', hholds⟩ := hlimited.global.exists_holder hfree hglobal
    obtain ⟨j, hj⟩ := List.mem_iff_getElem?.mp ht'
    rw [Task.holdsGlobal] at hholds
    cases hblocked : t'.phase.isBlocked with
    | true =>
      cases hphase' : t'.phase with
      | acquireHost m => exact exists_canStep_of_acquireHost hhost hlimited hgated hj hphase'
      | lockGate g =>
        rw [hphase'] at hholds
        cases hholds
      | acquireGlobal =>
        rw [hphase'] at hholds
        cases hholds
      | _ =>
        rw [hphase'] at hblocked
        cases hblocked
    | false =>
      refine ⟨j, canStep_of_not_blocked hlimited hgated hj hblocked ?_⟩
      cases hphase' : t'.phase <;> rw [hphase'] at hholds <;> first | rfl | cases hholds
  · exact ⟨i, .move hi (by simp [HostScheduler.move, hphase, Nat.pos_of_ne_zero hfree])⟩

/-- **No deadlock.** With limits of at least one, in every state of every run in
which some call waits, some call can take a step. -/
theorem exists_canStep (hglobal : 0 < globalLimit) (hhost : 0 < perHostLimit) {tr : List Action}
    (h : (scheduler maxInstant globalLimit perHostLimit).Run tr s)
    (hwaiting : ∃ t ∈ s.tasks, t.phase.isWaiting = true) : ∃ i, s.CanStep maxInstant i := by
  have hlimited := limited_of_run h
  have hgated : s.Gated := h.invariant inductive_gated fun _ _ => trivial
  obtain ⟨t, ht, hwaits⟩ := hwaiting
  obtain ⟨i, hi⟩ := List.mem_iff_getElem?.mp ht
  cases hphase : t.phase with
  | lockGate g => exact exists_canStep_of_lockGate hlimited hgated hi hphase
  | sleeping g deadline =>
    exact ⟨i, canStep_of_not_blocked hlimited hgated hi (by rw [hphase]; rfl) (by rw [hphase]; rfl)⟩
  | acquireGlobal => exact exists_canStep_of_acquireGlobal hglobal hhost hlimited hgated hi hphase
  | acquireHost m => exact exists_canStep_of_acquireHost hhost hlimited hgated hi hphase
  | _ =>
    rw [hphase] at hwaits
    cases hwaits

/-- A call waits for the only permit of its host. -/
theorem exists_canStep_twoCalls :
    ∃ i, ((twoCalls.foldlM (step 100) (.new 2 1)).get (by decide)).CanStep 100 i :=
  exists_canStep (by decide) (by decide)
    (Lts.run_get (show (twoCalls.foldlM (step 100) (.new 2 1)).isSome by decide))
    ⟨⟨"a".toList, none, .acquireHost 0, none, none⟩, by decide, by decide⟩

end HostScheduler

end Gurted.Crawler
