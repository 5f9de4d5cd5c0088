import Gurted.Crawler.Scheduler

/-!
# The limits of the scheduler

Every permit of a semaphore is free or held by one call, and a call waits at, or
holds a permit of, the semaphore of its own host. So no more than the global limit
hold a pair, and no more than the limit of a host hold one for it.
-/

namespace Gurted.Crawler

open Gurted Gurted.Lib

namespace Phase

/-- The call has a permit of the global semaphore. -/
def holdsGlobal : Phase → Bool
  | .hostSem => true
  | .acquireHost _ => true
  | .holding _ => true
  | .hostDropped _ => true
  | _ => false

/-- The semaphore of a host that the call has a permit of. -/
def holdsSem : Phase → Option Nat
  | .holding m => some m
  | .globalDropped m => some m
  | _ => none

/-- The semaphore of a host that the call waits at or has a permit of. -/
def usesSem : Phase → Option Nat
  | .acquireHost m => some m
  | .holding m => some m
  | .globalDropped m => some m
  | _ => none

/-- The call has returned, and both its permits are there. -/
def holdsPair : Phase → Bool
  | .holding _ => true
  | _ => false

theorem usesSem_of_holdsSem {p : Phase} {m : Nat} (h : p.holdsSem = some m) :
    p.usesSem = some m := by
  cases p <;> first | exact h | cases h

end Phase

namespace Task

def holdsGlobal (t : Task) : Bool := t.phase.holdsGlobal

def holdsSem (m : Nat) (t : Task) : Bool := t.phase.holdsSem == some m

/-- The call holds a returned pair. -/
def holdsPair (t : Task) : Bool := t.phase.holdsPair

theorem holdsGlobal_eq {t : Task} {p : Phase} (h : t.phase = p) :
    t.holdsGlobal = p.holdsGlobal := by
  rw [holdsGlobal, h]

theorem holdsSem_eq {t : Task} {p : Phase} (h : t.phase = p) (m : Nat) :
    t.holdsSem m = (p.holdsSem == some m) := by
  rw [holdsSem, h]

end Task

namespace HostScheduler

/-! ## What a step does to the permits -/

variable {maxInstant globalLimit perHostLimit : Nat} {s s' : HostScheduler} {a : Action}

theorem Steps.global (h : Steps maxInstant s a s')
    (hbal : Balanced s.global Task.holdsGlobal s.tasks globalLimit) :
    Balanced s'.global Task.holdsGlobal s'.tasks globalLimit := by
  cases h with
  | call => exact hbal.append rfl
  | callPolite => exact hbal.append rfl
  | tick => exact hbal
  | politeGate hi hphase => exact hbal.keep hi (Task.holdsGlobal_eq hphase).symm
  | lockGate hi hphase _ => exact hbal.keep hi (Task.holdsGlobal_eq hphase).symm
  | pass hi hphase _ _ _ => exact hbal.keep hi (Task.holdsGlobal_eq hphase).symm
  | wait hi hphase _ _ _ _ => exact hbal.keep hi (Task.holdsGlobal_eq hphase).symm
  | panic hi hphase _ _ _ _ => exact hbal.keep hi (Task.holdsGlobal_eq hphase).symm
  | sleep hi hphase => exact hbal.keep hi (Task.holdsGlobal_eq hphase).symm
  | wake hi hphase _ => exact hbal.keep hi (Task.holdsGlobal_eq hphase).symm
  | record hi hphase => exact hbal.keep hi (Task.holdsGlobal_eq hphase).symm
  | acquireGlobal hi hphase hfree => exact hbal.take hi hfree (Task.holdsGlobal_eq hphase) rfl
  | hostSem hi hphase => exact hbal.keep hi (Task.holdsGlobal_eq hphase).symm
  | acquireHost hi hphase _ _ => exact hbal.keep hi (Task.holdsGlobal_eq hphase).symm
  | dropGlobal hi hphase => exact hbal.give hi (Task.holdsGlobal_eq hphase) rfl
  | dropGlobalLast hi hphase => exact hbal.give hi (Task.holdsGlobal_eq hphase) rfl
  | dropHost hi hphase _ => exact hbal.keep hi (Task.holdsGlobal_eq hphase).symm
  | dropHostLast hi hphase _ => exact hbal.keep hi (Task.holdsGlobal_eq hphase).symm

/-- Every call uses the semaphore of its own host. -/
def OwnSem (s : HostScheduler) : Prop :=
  ∀ t ∈ s.tasks, ∀ m, t.phase.usesSem = some m → s.hosts.keys[m]? = some t.host

/-- A call that goes on uses the same semaphore, or none. -/
theorem OwnSem.keep (h : s.OwnSem) {i : Nat} {t t' : Task} (hi : s.tasks[i]? = some t)
    (htasks : s'.tasks = s.tasks.set i t') (hkeys : s'.hosts.keys = s.hosts.keys)
    (hhost : t'.host = t.host)
    (huses : ∀ m, t'.phase.usesSem = some m → t.phase.usesSem = some m) : s'.OwnSem := by
  intro x hx m hm
  rw [htasks] at hx
  rw [hkeys]
  rcases List.mem_or_eq_of_mem_set hx with hx | rfl
  · exact h x hx m hm
  · rw [hhost]
    exact h t (List.mem_of_getElem? hi) m (huses m hm)

/-- A new call uses none. -/
theorem OwnSem.append (h : s.OwnSem) {t : Task} (ht : t.phase.usesSem = none)
    (htasks : s'.tasks = s.tasks ++ [t]) (hhosts : s'.hosts = s.hosts) : s'.OwnSem := by
  intro x hx m hm
  rw [htasks] at hx
  rw [hhosts]
  rcases List.mem_append.mp hx with hx | hx
  · exact h x hx m hm
  · rw [List.mem_singleton.mp hx, ht] at hm
    cases hm

theorem OwnSem.hostSem (h : s.OwnSem) {i : Nat} {t : Task} :
    ({ s with hosts := (s.hosts.getOrInsert t.host s.perHostLimit).2 }.setPhase i t
      (.acquireHost (s.hosts.getOrInsert t.host s.perHostLimit).1)).OwnSem := by
  intro x hx m hm
  rcases List.mem_or_eq_of_mem_set hx with hx | rfl
  · exact Registry.keys_getOrInsert (h x hx m hm) _ _
  · cases hm
    exact Registry.keys_getOrInsert_self _ _ _

theorem Steps.ownSem (h : Steps maxInstant s a s') (hown : s.OwnSem) : s'.OwnSem := by
  cases h with
  | call => exact hown.append rfl rfl rfl
  | callPolite => exact hown.append rfl rfl rfl
  | tick => exact hown
  | politeGate hi _ => exact hown.keep hi rfl rfl rfl (fun _ h => nomatch h)
  | lockGate hi _ _ => exact hown.keep hi rfl rfl rfl (fun _ h => nomatch h)
  | pass hi _ _ _ _ => exact hown.keep hi rfl rfl rfl (fun _ h => nomatch h)
  | wait hi _ _ _ _ _ => exact hown.keep hi rfl rfl rfl (fun _ h => nomatch h)
  | panic hi _ _ _ _ _ => exact hown.keep hi rfl rfl rfl (fun _ h => nomatch h)
  | sleep hi _ => exact hown.keep hi rfl rfl rfl (fun _ h => nomatch h)
  | wake hi _ _ => exact hown.keep hi rfl rfl rfl (fun _ h => nomatch h)
  | record hi _ => exact hown.keep hi rfl rfl rfl (fun _ h => nomatch h)
  | acquireGlobal hi _ _ => exact hown.keep hi rfl rfl rfl (fun _ h => nomatch h)
  | hostSem => exact hown.hostSem
  | acquireHost hi hphase _ _ => exact hown.keep hi rfl rfl rfl (by rw [hphase]; exact fun _ h => h)
  | dropGlobal hi hphase => exact hown.keep hi rfl rfl rfl (by rw [hphase]; exact fun _ h => h)
  | dropGlobalLast hi _ => exact hown.keep hi rfl rfl rfl (fun _ h => nomatch h)
  | dropHost hi _ _ => exact hown.keep hi rfl rfl rfl (fun _ h => nomatch h)
  | dropHostLast hi _ _ => exact hown.keep hi rfl rfl rfl (fun _ h => nomatch h)

/-- The permits of every semaphore of a host. -/
def HostsBalanced (s : HostScheduler) : Prop :=
  ∀ m free, s.hosts.cells[m]? = some free →
    Balanced free (Task.holdsSem m) s.tasks s.perHostLimit

/-- A call that goes on without a change of its permit. -/
theorem HostsBalanced.keep (h : s.HostsBalanced) {i : Nat} {t t' : Task}
    (hi : s.tasks[i]? = some t) (hholds : t'.phase.holdsSem = t.phase.holdsSem)
    (htasks : s'.tasks = s.tasks.set i t') (hhosts : s'.hosts = s.hosts)
    (hlimit : s'.perHostLimit = s.perHostLimit) : s'.HostsBalanced := by
  intro m free hm
  rw [hhosts] at hm
  rw [htasks, hlimit]
  exact (h m free hm).keep hi (by rw [Task.holdsSem, hholds, Task.holdsSem])

theorem HostsBalanced.append (h : s.HostsBalanced) {t : Task} (ht : t.phase.holdsSem = none)
    (htasks : s'.tasks = s.tasks ++ [t]) (hhosts : s'.hosts = s.hosts)
    (hlimit : s'.perHostLimit = s.perHostLimit) : s'.HostsBalanced := by
  intro m free hm
  rw [hhosts] at hm
  rw [htasks, hlimit]
  exact (h m free hm).append (by rw [Task.holdsSem, ht]; rfl)

/-- A semaphore that was created just now has all its permits. -/
theorem HostsBalanced.hostSem (h : s.HostsBalanced) (hown : s.OwnSem) {i : Nat} {t : Task}
    (hi : s.tasks[i]? = some t) (hphase : t.phase = .hostSem) :
    ({ s with hosts := (s.hosts.getOrInsert t.host s.perHostLimit).2 }.setPhase i t
      (.acquireHost (s.hosts.getOrInsert t.host s.perHostLimit).1)).HostsBalanced := by
  intro m free hm
  rcases Registry.cells_getOrInsert hm with hold | ⟨hnew, rfl⟩
  · exact (h m free hold).keep hi (Task.holdsSem_eq hphase m).symm
  · refine .fresh fun x hx => ?_
    by_contra hholds
    rcases List.mem_or_eq_of_mem_set hx with hx | rfl
    · have huses : x.phase.usesSem = some m :=
        Phase.usesSem_of_holdsSem (by simpa [Task.holdsSem] using hholds)
      obtain ⟨hlt, -⟩ := List.getElem?_eq_some_iff.mp (hown x hx m huses)
      rw [← s.hosts.length_eq] at hlt
      omega
    · exact hholds rfl

theorem HostsBalanced.acquireHost (h : s.HostsBalanced) {i m free : Nat} {t : Task}
    (hi : s.tasks[i]? = some t) (hphase : t.phase = .acquireHost m)
    (hcell : s.hosts.cells[m]? = some free) (hfree : 0 < free) :
    ({ s with hosts := s.hosts.set m (free - 1) }.setTask i
      { t with phase := .holding m, returned := some s.now }).HostsBalanced := by
  intro m' free' hm'
  have hbefore : t.holdsSem m' = false := Task.holdsSem_eq hphase m'
  rcases Registry.cells_set hm' with ⟨rfl, rfl⟩ | ⟨hne, hother⟩
  · exact (h m' free hcell).take hi hfree hbefore (by simp [Task.holdsSem, Phase.holdsSem])
  · refine (h m' free' hother).keep hi ?_
    rw [hbefore]
    simp [Task.holdsSem, Phase.holdsSem, Ne.symm hne]

theorem HostsBalanced.dropHost (h : s.HostsBalanced) {i m free : Nat} {t : Task} {p : Phase}
    (hi : s.tasks[i]? = some t) (hholds : t.phase.holdsSem = some m) (hp : p.holdsSem = none)
    (hcell : s.hosts.cells[m]? = some free) :
    ({ s with hosts := s.hosts.set m (free + 1) }.setPhase i t p).HostsBalanced := by
  intro m' free' hm'
  rcases Registry.cells_set hm' with ⟨rfl, rfl⟩ | ⟨hne, hother⟩
  · exact (h m' free hcell).give hi (by simp [Task.holdsSem, hholds])
      (by simp [Task.holdsSem, hp])
  · exact (h m' free' hother).keep hi (by simp [Task.holdsSem, hholds, hp, Ne.symm hne])

theorem Steps.hostsBalanced (h : Steps maxInstant s a s') (hown : s.OwnSem)
    (hbal : s.HostsBalanced) : s'.HostsBalanced := by
  cases h with
  | call => exact hbal.append rfl rfl rfl rfl
  | callPolite => exact hbal.append rfl rfl rfl rfl
  | tick => exact hbal
  | politeGate hi hphase => exact hbal.keep hi (by rw [hphase]; rfl) rfl rfl rfl
  | lockGate hi hphase _ => exact hbal.keep hi (by rw [hphase]; rfl) rfl rfl rfl
  | pass hi hphase _ _ _ => exact hbal.keep hi (by rw [hphase]; rfl) rfl rfl rfl
  | wait hi hphase _ _ _ _ => exact hbal.keep hi (by rw [hphase]; rfl) rfl rfl rfl
  | panic hi hphase _ _ _ _ => exact hbal.keep hi (by rw [hphase]; rfl) rfl rfl rfl
  | sleep hi hphase => exact hbal.keep hi (by rw [hphase]; rfl) rfl rfl rfl
  | wake hi hphase _ => exact hbal.keep hi (by rw [hphase]; rfl) rfl rfl rfl
  | record hi hphase => exact hbal.keep hi (by rw [hphase]; rfl) rfl rfl rfl
  | acquireGlobal hi hphase _ => exact hbal.keep hi (by rw [hphase]; rfl) rfl rfl rfl
  | hostSem hi hphase => exact hbal.hostSem hown hi hphase
  | acquireHost hi hphase hcell hfree => exact hbal.acquireHost hi hphase hcell hfree
  | dropGlobal hi hphase => exact hbal.keep hi (by rw [hphase]; rfl) rfl rfl rfl
  | dropGlobalLast hi hphase => exact hbal.keep hi (by rw [hphase]; rfl) rfl rfl rfl
  | dropHost hi hphase hcell => exact hbal.dropHost hi (by rw [hphase]; rfl) rfl hcell
  | dropHostLast hi hphase hcell => exact hbal.dropHost hi (by rw [hphase]; rfl) rfl hcell

theorem Steps.limit (h : Steps maxInstant s a s') : s'.perHostLimit = s.perHostLimit := by
  cases h <;> rfl

/-! ## Every run -/

/-- The permits of a scheduler with these limits. -/
structure Limited (globalLimit perHostLimit : Nat) (s : HostScheduler) : Prop where
  limit : s.perHostLimit = perHostLimit
  global : Balanced s.global Task.holdsGlobal s.tasks globalLimit
  own : s.OwnSem
  hosts : s.HostsBalanced

theorem inductive_limited : (scheduler maxInstant globalLimit perHostLimit).Inductive
    (fun _ => True) (fun _ s => s.Limited globalLimit perHostLimit) where
  start := by
    intro s hs
    cases hs
    refine ⟨rfl, .fresh (by simp [HostScheduler.new]), ?_, ?_⟩
    · intro t ht
      cases ht
    · intro m free hm
      cases hm
  next := by
    intro tr s a s' _ h hstep
    have hsteps := steps_of_step hstep
    exact ⟨hsteps.limit.trans h.limit, hsteps.global h.global, hsteps.ownSem h.own,
      hsteps.hostsBalanced h.own h.hosts⟩

theorem limited_of_run {tr : List Action}
    (h : (scheduler maxInstant globalLimit perHostLimit).Run tr s) :
    s.Limited globalLimit perHostLimit :=
  h.invariant inductive_limited fun _ _ => trivial

/-! ## The limits -/

theorem Limited.holders_le (h : s.Limited globalLimit perHostLimit) :
    s.tasks.countP Task.holdsPair ≤ globalLimit := by
  have hmono : s.tasks.countP Task.holdsPair ≤ s.tasks.countP Task.holdsGlobal :=
    List.countP_mono_left fun t _ ht => by
      rw [Task.holdsPair] at ht
      rw [Task.holdsGlobal]
      cases hphase : t.phase <;> rw [hphase] at ht <;> first | rfl | cases ht
  exact hmono.trans h.global.countP_le

/-- A host has one semaphore. -/
theorem OwnSem.eq (h : s.OwnSem) {t t' : Task} (ht : t ∈ s.tasks) (ht' : t' ∈ s.tasks)
    (hhost : t.host = t'.host) {m m' : Nat} (hm : t.phase.usesSem = some m)
    (hm' : t'.phase.usesSem = some m') : m = m' := by
  have hkey := h t ht m hm
  have hkey' := h t' ht' m' hm'
  rw [hhost] at hkey
  exact s.hosts.eq_of_key hkey hkey'

theorem Limited.hostHolders_le (h : s.Limited globalLimit perHostLimit) (host : Str) :
    s.tasks.countP (fun t => t.holdsPair && t.host == host) ≤ perHostLimit := by
  by_cases hnone : ∃ t ∈ s.tasks, (t.holdsPair && t.host == host) = true
  · obtain ⟨t, ht, hholds⟩ := hnone
    have husesSem : ∀ t : Task, t.holdsPair = true →
        ∃ m, t.phase.usesSem = some m ∧ t.holdsSem m = true := by
      intro t hpair
      rw [Task.holdsPair] at hpair
      cases hphase : t.phase with
      | holding m => exact ⟨m, rfl, by simp [Task.holdsSem, hphase, Phase.holdsSem]⟩
      | _ =>
        rw [hphase] at hpair
        cases hpair
    simp only [Bool.and_eq_true, beq_iff_eq] at hholds
    obtain ⟨m, hm, -⟩ := husesSem t hholds.1
    obtain ⟨free, hcell⟩ := s.hosts.exists_cell (h.own t ht m hm)
    have hle := (h.hosts m free hcell).countP_le
    rw [h.limit] at hle
    -- every holder for the host has its permit from this semaphore
    refine (List.countP_mono_left fun t' ht' hholds' => ?_).trans hle
    simp only [Bool.and_eq_true, beq_iff_eq] at hholds'
    obtain ⟨m', hm', hsem⟩ := husesSem t' hholds'.1
    rw [h.own.eq ht ht' (hholds.2.trans hholds'.2.symm) hm hm']
    exact hsem
  · have hzero : s.tasks.countP (fun t => t.holdsPair && t.host == host) = 0 :=
      List.countP_eq_zero.mpr fun t ht hholds => hnone ⟨t, ht, hholds⟩
    omega

/-- **The limits** hold in every state of every run: on the pairs that are held, on
those of each host, and one semaphore is in use for a host. -/
theorem limits_kept {tr : List Action}
    (h : (scheduler maxInstant globalLimit perHostLimit).Run tr s) :
    s.tasks.countP Task.holdsPair ≤ globalLimit ∧
      (∀ host, s.tasks.countP (fun t => t.holdsPair && t.host == host) ≤ perHostLimit) ∧
      ∀ t ∈ s.tasks, ∀ t' ∈ s.tasks, t.host = t'.host → ∀ m m',
        t.phase.usesSem = some m → t'.phase.usesSem = some m' → m = m' := by
  have hlimited := limited_of_run h
  refine ⟨hlimited.holders_le, hlimited.hostHolders_le, ?_⟩
  intro t ht t' ht' hhost m m' hm hm'
  exact hlimited.own.eq ht ht' hhost hm hm'

/-- Two calls for a host with one permit: the second waits. -/
def twoCalls : List Action :=
  [.call "a".toList none, .call "a".toList none, .move 0, .move 1, .move 0, .move 0, .move 1]

theorem limits_kept_twoCalls :
    ((twoCalls.foldlM (step 100) (.new 2 1)).get (by decide)).tasks.countP Task.holdsPair ≤ 2 :=
  (limits_kept (Lts.run_get (show (twoCalls.foldlM (step 100) (.new 2 1)).isSome by decide))).1

end HostScheduler

end Gurted.Crawler
