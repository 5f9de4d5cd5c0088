import Gurted.Lib.Rank
import Gurted.Recovery.Resume

/-!
# A resumption completes

Left to itself, a process takes finitely many steps: each brings a job, a task or the list
nearer to its end (`rank_lt`). It stops only when the resumption has been worked off.
-/

namespace Gurted.Recovery

open Gurted Gurted.Lib Gurted.Storage Gurted.Indexing Gurted.Router

variable {lower : Str → Str} {s s' : Node lower} {e : Event}

/-- What a process does by itself: no submission comes, and nothing panics. -/
def Event.Own : Event → Prop
  | .submit _ | .restart | .panic _ | .list _ | .listFails => False
  | .enqueue _ | .upsert _ _ | .upsertFails _ | .service _ | .markReady _ | .markFails _
  | .giveUp _ | .resume => True

/-! ## The rank -/

/-- What is left of an `enqueue` call, and of its job after it. -/
def callRank (c : Call) : Nat :=
  match c.phase with
  | .ensureWorker => 8
  | .send => 7
  | .remove => 1

/-- What is left of the job of the worker, after some attempts that failed. -/
def workerRank (failed : Nat) : Worker → Nat
  | .processing _ => 2 + (maxAttempts - failed)
  | .processed _ => 1
  | .notStarted | .idle | .dead => 0

def serviceRank (s : Service) (failed : Nat) : Nat :=
  (s.calls.map callRank).sum + 6 * s.queue.length + workerRank failed s.worker

def Node.rank (s : Node lower) : Nat :=
  9 * (s.boot.getD []).length + 9 * s.handlers.length + s.upserts.length
    + serviceRank s.service s.failed

/-- A new call takes at most what the rank counts for it. -/
theorem rank_enqueueDomain {s s' : Service} {d : Str} (h : enqueueDomain s d = some s')
    (failed : Nat) : serviceRank s' failed < serviceRank s failed + 9 := by
  rcases enqueueDomain_cases h with ⟨-, rfl⟩ | hstep
  · omega
  · cases Service.steps_of_step hstep with
    | inFlight => omega
    | enqueue =>
      simp only [serviceRank, List.map_cons, List.sum_cons, callRank]
      omega

theorem workerRank_ensureWorker (s : Service) (failed : Nat) :
    workerRank failed s.ensureWorker.worker ≤ workerRank failed s.worker ∧
      s.ensureWorker.queue = s.queue := by
  rw [Service.ensureWorker]
  split
  · exact ⟨Nat.le_refl _, rfl⟩
  · exact ⟨Nat.zero_le _, rfl⟩

/-- A step of a call or of the worker between the ends of a job. -/
theorem rank_inner {s s' : Service} {a : Action} (failed : Nat) (hinner : Inner a = true)
    (hstep : s.step a = some s') : serviceRank s' failed < serviceRank s failed := by
  cases Service.steps_of_step hstep with
  | inFlight => cases hinner
  | enqueue => cases hinner
  | @ensureWorker i d hcall =>
    have hsum := sum_map_set callRank hcall ⟨d, .send⟩
    obtain ⟨hworker, hqueue⟩ := workerRank_ensureWorker s failed
    simp only [callRank] at hsum
    simp only [serviceRank, hqueue]
    omega
  | @send i d hcall hreceives =>
    have hsum := sum_map_eraseIdx callRank hcall
    simp only [callRank] at hsum
    simp only [serviceRank, List.length_append, List.length_singleton]
    omega
  | @sendFails i d hcall hgone =>
    have hsum := sum_map_set callRank hcall ⟨d, .remove⟩
    simp only [callRank] at hsum
    simp only [serviceRank]
    omega
  | @remove i d hcall =>
    have hsum := sum_map_eraseIdx callRank hcall
    simp only [callRank] at hsum
    simp only [serviceRank]
    omega
  | recv hworker hqueue =>
    simp only [serviceRank, hworker, hqueue, List.length_cons, workerRank, maxAttempts]
    omega
  | process => cases hinner
  | workerRemove hworker =>
    simp only [serviceRank, hworker, workerRank]
    omega
  | panic => cases hinner

/-- **Every own step** leaves less to do. -/
theorem rank_lt (hown : e.Own) (hstep : s.step e = some s') : s'.rank < s.rank := by
  cases Node.steps_of_step hstep with
  | submit => cases hown
  | enqueue hmem hservice =>
    have hrank := rank_enqueueDomain hservice s.failed
    have hlen := List.length_erase_of_mem hmem
    have hpos := List.length_pos_of_mem hmem
    simp only [Node.rank, hlen]
    omega
  | upsert hmem =>
    have hlen := List.length_erase_of_mem hmem
    have hpos := List.length_pos_of_mem hmem
    simp only [Node.rank, hlen]
    omega
  | upsertError hmem =>
    have hlen := List.length_erase_of_mem hmem
    have hpos := List.length_pos_of_mem hmem
    simp only [Node.rank, hlen]
    omega
  | upsertFails hmem =>
    have hlen := List.length_erase_of_mem hmem
    have hpos := List.length_pos_of_mem hmem
    simp only [Node.rank, hlen]
    omega
  | service hinner hservice =>
    have hrank := rank_inner s.failed hinner hservice
    simp only [Node.rank]
    omega
  | markReady hservice =>
    cases Service.steps_of_step hservice with
    | process hworker =>
      simp only [Node.rank, serviceRank, hworker, workerRank]
      omega
  | markFails hworker hleft =>
    simp only [Node.rank, serviceRank, hworker, workerRank]
    omega
  | giveUp hlast hservice =>
    cases Service.steps_of_step hservice with
    | process hworker =>
      simp only [Node.rank, serviceRank, hworker, workerRank]
      omega
  | panic => cases hown
  | list => cases hown
  | listFails => cases hown
  | resume hboot hservice =>
    have hrank := rank_enqueueDomain hservice s.failed
    simp only [Node.rank, hboot, Option.getD_some, List.length_cons]
    omega
  | restart => cases hown

/-! ## Where a process stops -/

/-- No step of its own is left. -/
def Node.Stopped (s : Node lower) : Prop := ∀ e, e.Own → s.step e = none

theorem enqueueDomain_isSome (s : Service) (d : Str) : (enqueueDomain s d).isSome := by
  rw [enqueueDomain]
  split
  · rfl
  · rw [Service.step]
    split <;> rfl

theorem Node.Stopped.service (h : s.Stopped) {a : Action} (hinner : Inner a = true) :
    s.service.step a = none := by
  have hstep := h (.service a) trivial
  simpa [Node.step, hinner] using hstep

/-- The first call can go on. -/
theorem Node.Stopped.calls (h : s.Stopped) : s.service.calls = [] := by
  cases hcalls : s.service.calls with
  | nil => rfl
  | cons c calls =>
    exfalso
    obtain ⟨d, phase⟩ := c
    have hget : s.service.calls[0]? = some ⟨d, phase⟩ := by rw [hcalls]; rfl
    cases phase with
    | ensureWorker =>
      have hstep := h.service (a := .ensureWorker 0) rfl
      simp [Service.step, hget] at hstep
    | send =>
      have hstep := h.service (a := .send 0) rfl
      simp only [Service.step, hget] at hstep
      split at hstep <;> cases hstep
    | remove =>
      have hstep := h.service (a := .remove 0) rfl
      simp [Service.step, hget] at hstep

/-- A worker that lives ends its job, and takes the next. -/
theorem Node.Stopped.worker (h : s.Stopped) (hagrees : Agrees s.service) :
    s.service.queue = [] ∧ s.service.worker.job = [] := by
  cases hw : s.service.worker with
  | notStarted => exact ⟨hagrees.queue hw, rfl⟩
  | idle =>
    cases hqueue : s.service.queue with
    | nil => exact ⟨rfl, rfl⟩
    | cons d queue =>
      have hstep := h.service (a := .recv) rfl
      simp [Service.step, hw, hqueue] at hstep
  | processing d =>
    have hready : DomainStatus.ofText "ready".toList = some .ready := by decide
    obtain ⟨table, htable⟩ := setDomainStatus_ok s.table d hready
    have hstep := h (.markReady d) trivial
    simp only [Node.step, Service.step, hw, if_true, htable] at hstep
    cases hstep
  | processed d =>
    have hstep := h.service (a := .workerRemove d) rfl
    simp [Service.step, hw] at hstep
  | dead => exact absurd hw hagrees.live.alive

theorem Node.Stopped.boot (h : s.Stopped) {left : List Str} (hleft : s.boot = some left) :
    left = [] := by
  cases left with
  | nil => rfl
  | cons d left =>
    have hstep := h .resume trivial
    obtain ⟨service, hservice⟩ := Option.isSome_iff_exists.mp (enqueueDomain_isSome s.service d)
    simp [Node.step, hleft, hservice] at hstep

theorem Resuming.resumed {listed : List Str} {missed : Str → Prop} (h : Resuming listed missed s)
    (hstop : s.Stopped) :
    s.Resumed := by
  obtain ⟨left, hleft, -⟩ := h.covered
  obtain ⟨hqueue, hjob⟩ := hstop.worker h.service
  exact ⟨by rw [hleft, hstop.boot hleft], hstop.calls, hqueue, hjob⟩

/-! ## Whole runs -/

/-- **A resumption completes.** Left to itself after its listing, a process takes a
bounded number of steps; and where it stops, the resumption has been worked off. -/
theorem resumption_completes {t₀ : DomainsTable lower} {before after : List Event}
    {env : BootstrapEnv} {s₀ : Node lower} (h : Resumption t₀ before env after s₀ s)
    (ht₀ : Clean t₀) (hown : ∀ e ∈ after, e.Own) :
    after.length + s.rank ≤ s₀.rank + 9 * (env.domains s₀.table).length ∧
      (s.Stopped → s.Resumed ∧ WorkedOff t₀ before env after s₀ s) := by
  constructor
  · obtain ⟨s₁, hlist, hafter⟩ := h.lists
    have hrank := hafter.length_add_rank_le Node.rank (n := s₁.rank)
      (fun _ _ _ => rank_lt) (fun s hs => by cases hs; exact Nat.le_refl _) hown
    cases Node.steps_of_step hlist with
    | list hboot =>
      simp only [Node.rank, hboot, Option.getD_some, Option.getD_none, List.length_nil] at hrank ⊢
      omega
  · intro hstop
    have hresumed := (h.resuming ht₀).resumed hstop
    exact ⟨hresumed, fun d hd => (h.resuming ht₀).settled hresumed hd,
      fun hcovers d hd => h.row_settled ht₀ hresumed hcovers hd⟩

theorem resumption_completes_crash :
    resumption.length + resumedNode.rank
        ≤ (Node.fresh (savedTable .pending)).rank
          + 9 * (BootstrapEnv.domains ⟨none, none⟩ (savedTable .pending)).length ∧
      (resumedNode.Stopped → resumedNode.Resumed ∧
        WorkedOff emptyTable crash ⟨none, none⟩ resumption (.fresh (savedTable .pending))
          resumedNode) :=
  resumption_completes crash_resumption (by simp [Clean, emptyTable]) (by
    intro e he
    simp only [resumption, List.mem_cons, List.not_mem_nil, or_false] at he
    rcases he with rfl | rfl | rfl | rfl | rfl | rfl | rfl <;> trivial)

end Gurted.Recovery
