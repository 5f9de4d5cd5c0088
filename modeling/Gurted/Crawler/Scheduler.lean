import Gurted.Lib.Lts
import Gurted.Lib.Permits
import Gurted.Lib.Registry
import Gurted.Std.Str

/-!
# The host scheduler (`gurtd/src/crawler/scheduler.rs`)

`HostScheduler` hands out pairs of permits, one of a global semaphore and one of a
semaphore of the host, and spaces the calls that ask for a crawl-delay by a gate of
the host. The model is a transition system: a state has the semaphores, the gates,
the clock and every call with the point it has reached, and a step is one call that
moves from one `await` to the next, a drop of a permit, or time that passes.

A semaphore or gate is known by its number in the table of its host, as an `Arc` is
by its address. The locks of the two tables are held across no `await`, so a lookup
is one step.
-/

namespace Gurted.Crawler

open Gurted Gurted.Lib

/-- The point a call has reached; `acquire_polite` with a delay starts at
`politeGate`, every other call at `acquireGlobal`. -/
inductive Phase where
  /-- Before `host_polite_gate`. -/
  | politeGate
  /-- At `gate.lock()`. -/
  | lockGate (gate : Nat)
  /-- With the lock, before `*last` is read. -/
  | readGate (gate : Nat)
  /-- With the lock, before the sleep. -/
  | sleep (gate wait : Nat)
  | sleeping (gate deadline : Nat)
  /-- With the lock, before `*last` is written. -/
  | record (gate : Nat)
  /-- At `acquire_owned()` of the global semaphore. -/
  | acquireGlobal
  /-- With the global permit, before `host_sem`. -/
  | hostSem
  /-- At `acquire_owned()` of the semaphore of the host. -/
  | acquireHost (sem : Nat)
  /-- The call has returned both permits. -/
  | holding (sem : Nat)
  | globalDropped (sem : Nat)
  | hostDropped (sem : Nat)
  | finished
  | panicked
  deriving DecidableEq, Repr

/-- A call of `acquire` or `acquire_polite` (they are the same without a delay).
`recorded` is the instant it wrote into its gate, `returned` the one it returned at. -/
structure Task where
  host : Str
  delay : Option Nat
  phase : Phase
  recorded : Option Nat
  returned : Option Nat
  deriving DecidableEq, Repr

/-- A `Mutex<Option<Instant>>`, with the call that has it locked. -/
structure Gate where
  owner : Option Nat
  last : Option Nat
  deriving DecidableEq, Repr

/-- `HostScheduler` with the calls on all its clones. A semaphore is the number of
its free permits. -/
structure HostScheduler where
  global : Nat
  perHostLimit : Nat
  hosts : Registry Str Nat
  polite : Registry Str Gate
  now : Nat
  tasks : List Task

/-- `HostScheduler::new`, at the instant 0. -/
def HostScheduler.new (globalLimit perHostLimit : Nat) : HostScheduler :=
  ⟨globalLimit, perHostLimit, .empty, .empty, 0, []⟩

inductive Action where
  | call (host : Str) (delay : Option Nat)
  | tick (n : Nat)
  /-- The call `i` goes on. -/
  | move (i : Nat)
  | dropGlobal (i : Nat)
  | dropHost (i : Nat)
  deriving DecidableEq, Repr

namespace HostScheduler

/-- The call `i` is at another point. -/
def setTask (s : HostScheduler) (i : Nat) (t : Task) : HostScheduler :=
  { s with tasks := s.tasks.set i t }

def setPhase (s : HostScheduler) (i : Nat) (t : Task) (p : Phase) : HostScheduler :=
  s.setTask i { t with phase := p }

/-- What `acquire_polite` does with the lock: it goes on, sleeps, or panics where
`prev + delay` is no `Instant`. A panic unlocks the gate. -/
def readGate (maxInstant : Nat) (s : HostScheduler) (i : Nat) (t : Task) (g : Nat)
    (last : Option Nat) (delay : Nat) : HostScheduler :=
  match last with
  | none => s.setPhase i t (.record g)
  | some prev =>
      if maxInstant < prev + delay then
        { s with polite := s.polite.set g ⟨none, last⟩ }.setPhase i t .panicked
      else if s.now < prev + delay then s.setPhase i t (.sleep g (prev + delay - s.now))
      else s.setPhase i t (.record g)

/-- The call `i` goes on to its next `await`. -/
def move (maxInstant : Nat) (s : HostScheduler) (i : Nat) (t : Task) : Option HostScheduler :=
  match t.phase with
  | .politeGate =>
      let r := s.polite.getOrInsert t.host ⟨none, none⟩
      some ({ s with polite := r.2 }.setPhase i t (.lockGate r.1))
  | .lockGate g =>
      match s.polite.cells[g]? with
      | some ⟨none, last⟩ =>
          some ({ s with polite := s.polite.set g ⟨some i, last⟩ }.setPhase i t (.readGate g))
      | _ => none
  | .readGate g =>
      match s.polite.cells[g]?, t.delay with
      | some gate, some delay => some (s.readGate maxInstant i t g gate.last delay)
      | _, _ => none
  | .sleep g wait => some (s.setPhase i t (.sleeping g (s.now + wait)))
  | .sleeping g deadline => if deadline ≤ s.now then some (s.setPhase i t (.record g)) else none
  | .record g =>
      some ({ s with polite := s.polite.set g ⟨none, some s.now⟩ }.setTask i
        { t with phase := .acquireGlobal, recorded := some s.now })
  | .acquireGlobal =>
      if 0 < s.global then some ({ s with global := s.global - 1 }.setPhase i t .hostSem)
      else none
  | .hostSem =>
      let r := s.hosts.getOrInsert t.host s.perHostLimit
      some ({ s with hosts := r.2 }.setPhase i t (.acquireHost r.1))
  | .acquireHost m =>
      match s.hosts.cells[m]? with
      | some free =>
          if 0 < free then
            some ({ s with hosts := s.hosts.set m (free - 1) }.setTask i
              { t with phase := .holding m, returned := some s.now })
          else none
      | none => none
  | _ => none

def step (maxInstant : Nat) (s : HostScheduler) : Action → Option HostScheduler
  | .call host none =>
      some { s with tasks := s.tasks ++ [⟨host, none, .acquireGlobal, none, none⟩] }
  | .call host (some delay) =>
      some { s with tasks := s.tasks ++ [⟨host, some delay, .politeGate, none, none⟩] }
  | .tick n => some { s with now := s.now + n }
  | .move i => s.tasks[i]?.bind fun t => s.move maxInstant i t
  | .dropGlobal i => s.tasks[i]?.bind fun t =>
      match t.phase with
      | .holding m => some ({ s with global := s.global + 1 }.setPhase i t (.globalDropped m))
      | .hostDropped _ => some ({ s with global := s.global + 1 }.setPhase i t .finished)
      | _ => none
  | .dropHost i => s.tasks[i]?.bind fun t =>
      match t.phase with
      | .holding m => (s.hosts.cells[m]?).map fun free =>
          { s with hosts := s.hosts.set m (free + 1) }.setPhase i t (.hostDropped m)
      | .globalDropped m => (s.hosts.cells[m]?).map fun free =>
          { s with hosts := s.hosts.set m (free + 1) }.setPhase i t .finished
      | _ => none

/-- **What a step can do**, one case for each way a call can go on. -/
inductive Steps (maxInstant : Nat) (s : HostScheduler) : Action → HostScheduler → Prop
  | call {host : Str} : Steps maxInstant s (.call host none)
      { s with tasks := s.tasks ++ [⟨host, none, .acquireGlobal, none, none⟩] }
  | callPolite {host : Str} {delay : Nat} : Steps maxInstant s (.call host (some delay))
      { s with tasks := s.tasks ++ [⟨host, some delay, .politeGate, none, none⟩] }
  | tick {n : Nat} : Steps maxInstant s (.tick n) { s with now := s.now + n }
  | politeGate {i : Nat} {t : Task} : s.tasks[i]? = some t → t.phase = .politeGate →
      Steps maxInstant s (.move i)
        ({ s with polite := (s.polite.getOrInsert t.host ⟨none, none⟩).2 }.setPhase i t
          (.lockGate (s.polite.getOrInsert t.host ⟨none, none⟩).1))
  | lockGate {i g : Nat} {t : Task} {last : Option Nat} : s.tasks[i]? = some t →
      t.phase = .lockGate g → s.polite.cells[g]? = some ⟨none, last⟩ →
      Steps maxInstant s (.move i)
        ({ s with polite := s.polite.set g ⟨some i, last⟩ }.setPhase i t (.readGate g))
  | pass {i g delay : Nat} {t : Task} {gate : Gate} : s.tasks[i]? = some t →
      t.phase = .readGate g → t.delay = some delay → s.polite.cells[g]? = some gate →
      (∀ prev, gate.last = some prev → prev + delay ≤ s.now) →
      Steps maxInstant s (.move i) (s.setPhase i t (.record g))
  | wait {i g delay prev : Nat} {t : Task} {gate : Gate} : s.tasks[i]? = some t →
      t.phase = .readGate g → t.delay = some delay → s.polite.cells[g]? = some gate →
      gate.last = some prev → s.now < prev + delay →
      Steps maxInstant s (.move i) (s.setPhase i t (.sleep g (prev + delay - s.now)))
  | panic {i g delay prev : Nat} {t : Task} {gate : Gate} : s.tasks[i]? = some t →
      t.phase = .readGate g → t.delay = some delay → s.polite.cells[g]? = some gate →
      gate.last = some prev → maxInstant < prev + delay →
      Steps maxInstant s (.move i)
        ({ s with polite := s.polite.set g ⟨none, gate.last⟩ }.setPhase i t .panicked)
  | sleep {i g wait : Nat} {t : Task} : s.tasks[i]? = some t → t.phase = .sleep g wait →
      Steps maxInstant s (.move i) (s.setPhase i t (.sleeping g (s.now + wait)))
  | wake {i g deadline : Nat} {t : Task} : s.tasks[i]? = some t →
      t.phase = .sleeping g deadline → deadline ≤ s.now →
      Steps maxInstant s (.move i) (s.setPhase i t (.record g))
  | record {i g : Nat} {t : Task} : s.tasks[i]? = some t → t.phase = .record g →
      Steps maxInstant s (.move i)
        ({ s with polite := s.polite.set g ⟨none, some s.now⟩ }.setTask i
          { t with phase := .acquireGlobal, recorded := some s.now })
  | acquireGlobal {i : Nat} {t : Task} : s.tasks[i]? = some t → t.phase = .acquireGlobal →
      0 < s.global →
      Steps maxInstant s (.move i) ({ s with global := s.global - 1 }.setPhase i t .hostSem)
  | hostSem {i : Nat} {t : Task} : s.tasks[i]? = some t → t.phase = .hostSem →
      Steps maxInstant s (.move i)
        ({ s with hosts := (s.hosts.getOrInsert t.host s.perHostLimit).2 }.setPhase i t
          (.acquireHost (s.hosts.getOrInsert t.host s.perHostLimit).1))
  | acquireHost {i m free : Nat} {t : Task} : s.tasks[i]? = some t → t.phase = .acquireHost m →
      s.hosts.cells[m]? = some free → 0 < free →
      Steps maxInstant s (.move i)
        ({ s with hosts := s.hosts.set m (free - 1) }.setTask i
          { t with phase := .holding m, returned := some s.now })
  | dropGlobal {i m : Nat} {t : Task} : s.tasks[i]? = some t → t.phase = .holding m →
      Steps maxInstant s (.dropGlobal i)
        ({ s with global := s.global + 1 }.setPhase i t (.globalDropped m))
  | dropGlobalLast {i m : Nat} {t : Task} : s.tasks[i]? = some t → t.phase = .hostDropped m →
      Steps maxInstant s (.dropGlobal i)
        ({ s with global := s.global + 1 }.setPhase i t .finished)
  | dropHost {i m free : Nat} {t : Task} : s.tasks[i]? = some t → t.phase = .holding m →
      s.hosts.cells[m]? = some free →
      Steps maxInstant s (.dropHost i)
        ({ s with hosts := s.hosts.set m (free + 1) }.setPhase i t (.hostDropped m))
  | dropHostLast {i m free : Nat} {t : Task} : s.tasks[i]? = some t →
      t.phase = .globalDropped m → s.hosts.cells[m]? = some free →
      Steps maxInstant s (.dropHost i)
        ({ s with hosts := s.hosts.set m (free + 1) }.setPhase i t .finished)

theorem readGate_steps {maxInstant i g delay : Nat} {s : HostScheduler} {t : Task} {gate : Gate}
    (hi : s.tasks[i]? = some t) (hphase : t.phase = .readGate g) (hdelay : t.delay = some delay)
    (hgate : s.polite.cells[g]? = some gate) :
    Steps maxInstant s (.move i) (s.readGate maxInstant i t g gate.last delay) := by
  rw [readGate.eq_def]
  split
  · next hlast => exact .pass hi hphase hdelay hgate (by simp [hlast])
  · next prev hlast =>
    split
    · next hpanic => exact .panic hi hphase hdelay hgate hlast hpanic
    · split
      · next hwait => exact .wait hi hphase hdelay hgate hlast hwait
      · next hnow =>
        refine .pass hi hphase hdelay hgate fun p hp => ?_
        rw [hlast] at hp
        cases hp
        omega

theorem move_steps {maxInstant i : Nat} {s s' : HostScheduler} {t : Task}
    (hi : s.tasks[i]? = some t) (h : s.move maxInstant i t = some s') :
    Steps maxInstant s (.move i) s' := by
  rw [move] at h
  split at h
  · next hphase =>
    cases h
    exact .politeGate hi hphase
  · next hphase =>
    split at h
    · next hgate =>
      cases h
      exact .lockGate hi hphase hgate
    · cases h
  · next hphase =>
    split at h
    · next hgate hdelay =>
      cases h
      exact readGate_steps hi hphase hdelay hgate
    · cases h
  · next hphase =>
    cases h
    exact .sleep hi hphase
  · next hphase =>
    split at h
    · next hdue =>
      cases h
      exact .wake hi hphase hdue
    · cases h
  · next hphase =>
    cases h
    exact .record hi hphase
  · next hphase =>
    split at h
    · next hfree =>
      cases h
      exact .acquireGlobal hi hphase hfree
    · cases h
  · next hphase =>
    cases h
    exact .hostSem hi hphase
  · next hphase =>
    split at h
    · next hcell =>
      split at h
      · next hfree =>
        cases h
        exact .acquireHost hi hphase hcell hfree
      · cases h
    · cases h
  · cases h

theorem steps_of_step {maxInstant : Nat} {s s' : HostScheduler} {a : Action}
    (h : s.step maxInstant a = some s') : Steps maxInstant s a s' := by
  cases a with
  | call host delay =>
    cases delay with
    | none =>
      cases h
      exact .call
    | some delay =>
      cases h
      exact .callPolite
  | tick n =>
    cases h
    exact .tick
  | move i =>
    obtain ⟨t, hi, hmove⟩ := Option.bind_eq_some_iff.mp h
    exact move_steps hi hmove
  | dropGlobal i =>
    obtain ⟨t, hi, hdrop⟩ := Option.bind_eq_some_iff.mp h
    split at hdrop
    · next hphase =>
      cases hdrop
      exact .dropGlobal hi hphase
    · next hphase =>
      cases hdrop
      exact .dropGlobalLast hi hphase
    · cases hdrop
  | dropHost i =>
    obtain ⟨t, hi, hdrop⟩ := Option.bind_eq_some_iff.mp h
    split at hdrop
    · next hphase =>
      obtain ⟨free, hcell, heq⟩ := Option.map_eq_some_iff.mp hdrop
      cases heq
      exact .dropHost hi hphase hcell
    · next hphase =>
      obtain ⟨free, hcell, heq⟩ := Option.map_eq_some_iff.mp hdrop
      cases heq
      exact .dropHostLast hi hphase hcell
    · cases hdrop

end HostScheduler

/-- All runs of a scheduler with these limits; `maxInstant` is the last `Instant`. -/
def scheduler (maxInstant globalLimit perHostLimit : Nat) : Lts HostScheduler Action :=
  .ofStep (.new globalLimit perHostLimit) (HostScheduler.step maxInstant)

end Gurted.Crawler
