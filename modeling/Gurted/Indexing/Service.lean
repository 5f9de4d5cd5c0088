import Mathlib.Data.Finset.Insert
import Mathlib.Data.Finset.Erase
import Mathlib.Data.List.Perm.Basic
import Gurted.Lib.Lts
import Gurted.Std.Str

/-!
# The indexing service (`IndexingService` of `gurtd/src/indexing/mod.rs`)

Any number of `enqueue` calls run beside the worker thread. Each locks the set
`in_flight` and the sender only for single steps, so a call is modelled by the
step it does next, and a run interleaves the steps of all calls with those of
the worker in any order.
-/

namespace Gurted.Indexing

open Gurted Gurted.Lib

/-! ## State and steps -/

/-- The step an `enqueue` call does next, after it has inserted its domain. -/
inductive Phase where
  | ensureWorker
  | send
  | remove
  deriving DecidableEq, Repr

structure Call where
  domain : Str
  phase : Phase
  deriving DecidableEq, Repr

/-- Where `run_worker` is: it waits for a job, runs `process_domain`, or is about
to remove the job it has run. A panic of `process_domain` ends the thread. -/
inductive Worker where
  | notStarted
  | idle
  | processing (domain : Str)
  | processed (domain : Str)
  | dead
  deriving DecidableEq, Repr

structure Service where
  /-- `sender` holds a channel. -/
  sender : Bool
  inFlight : Finset Str
  calls : List Call
  queue : List Str
  worker : Worker
  /-- How many worker threads were started. -/
  spawned : Nat
  deriving DecidableEq

def Service.new : Service := ⟨false, ∅, [], [], .notStarted, 0⟩

/-- A channel whose receiver lives takes what is sent. -/
def Worker.receives : Worker → Bool
  | .idle => true
  | .processing _ => true
  | .processed _ => true
  | .notStarted => false
  | .dead => false

/-- The atomic steps; the calls are addressed by their position in the list. -/
inductive Action where
  | enqueue (domain : Str)
  | ensureWorker (i : Nat)
  | send (i : Nat)
  | remove (i : Nat)
  | recv
  | process (domain : Str)
  | workerRemove (domain : Str)
  | panic (domain : Str)
  deriving DecidableEq, Repr

/-- `ensure_worker`: the thread is started with the channel, once. -/
def Service.ensureWorker (s : Service) : Service :=
  if s.sender then s
  else { s with sender := true, worker := .idle, spawned := s.spawned + 1 }

def Service.step (s : Service) : Action → Option Service
  | .enqueue d =>
      if d ∈ s.inFlight then some s
      else some { s with inFlight := insert d s.inFlight, calls := ⟨d, .ensureWorker⟩ :: s.calls }
  | .ensureWorker i =>
      match s.calls[i]? with
      | some ⟨d, .ensureWorker⟩ => some { s.ensureWorker with calls := s.calls.set i ⟨d, .send⟩ }
      | _ => none
  | .send i =>
      match s.calls[i]? with
      | some ⟨d, .send⟩ =>
          -- a send fails only when the receiver is gone
          if s.worker.receives then
            some { s with queue := s.queue ++ [d], calls := s.calls.eraseIdx i }
          else some { s with calls := s.calls.set i ⟨d, .remove⟩ }
      | _ => none
  | .remove i =>
      match s.calls[i]? with
      | some ⟨d, .remove⟩ =>
          some { s with inFlight := s.inFlight.erase d, calls := s.calls.eraseIdx i }
      | _ => none
  | .recv =>
      match s.worker, s.queue with
      | .idle, d :: queue => some { s with worker := .processing d, queue := queue }
      | _, _ => none
  | .process d =>
      if s.worker = .processing d then some { s with worker := .processed d } else none
  | .workerRemove d =>
      if s.worker = .processed d then
        some { s with worker := .idle, inFlight := s.inFlight.erase d }
      else none
  | .panic d =>
      -- the receiver is dropped with the thread, and what it holds with it
      if s.worker = .processing d then some { s with worker := .dead, queue := [] } else none

/-- What a step can do. -/
inductive Service.Steps (s : Service) : Action → Service → Prop
  | inFlight {d : Str} (hmem : d ∈ s.inFlight) : Steps s (.enqueue d) s
  | enqueue {d : Str} (hnew : d ∉ s.inFlight) :
      Steps s (.enqueue d)
        { s with inFlight := insert d s.inFlight, calls := ⟨d, .ensureWorker⟩ :: s.calls }
  | ensureWorker {i : Nat} {d : Str} (hcall : s.calls[i]? = some ⟨d, .ensureWorker⟩) :
      Steps s (.ensureWorker i) { s.ensureWorker with calls := s.calls.set i ⟨d, .send⟩ }
  | send {i : Nat} {d : Str} (hcall : s.calls[i]? = some ⟨d, .send⟩)
      (hreceives : s.worker.receives = true) :
      Steps s (.send i) { s with queue := s.queue ++ [d], calls := s.calls.eraseIdx i }
  | sendFails {i : Nat} {d : Str} (hcall : s.calls[i]? = some ⟨d, .send⟩)
      (hgone : s.worker.receives = false) :
      Steps s (.send i) { s with calls := s.calls.set i ⟨d, .remove⟩ }
  | remove {i : Nat} {d : Str} (hcall : s.calls[i]? = some ⟨d, .remove⟩) :
      Steps s (.remove i) { s with inFlight := s.inFlight.erase d, calls := s.calls.eraseIdx i }
  | recv {d : Str} {queue : List Str} (hworker : s.worker = .idle) (hqueue : s.queue = d :: queue) :
      Steps s .recv { s with worker := .processing d, queue := queue }
  | process {d : Str} (hworker : s.worker = .processing d) :
      Steps s (.process d) { s with worker := .processed d }
  | workerRemove {d : Str} (hworker : s.worker = .processed d) :
      Steps s (.workerRemove d) { s with worker := .idle, inFlight := s.inFlight.erase d }
  | panic {d : Str} (hworker : s.worker = .processing d) :
      Steps s (.panic d) { s with worker := .dead, queue := [] }

theorem Service.steps_of_step {s s' : Service} {a : Action} (h : s.step a = some s') :
    s.Steps a s' := by
  cases a with
  | enqueue d =>
    simp only [Service.step] at h
    split at h
    · next hmem =>
      cases h
      exact .inFlight hmem
    · next hnew =>
      cases h
      exact .enqueue hnew
  | ensureWorker i =>
    simp only [Service.step] at h
    split at h
    · next d hcall =>
      cases h
      exact .ensureWorker hcall
    · cases h
  | send i =>
    simp only [Service.step] at h
    split at h
    · next d hcall =>
      split at h
      · next hreceives =>
        cases h
        exact .send hcall hreceives
      · next hgone =>
        cases h
        exact .sendFails hcall (Bool.eq_false_of_not_eq_true hgone)
    · cases h
  | remove i =>
    simp only [Service.step] at h
    split at h
    · next d hcall =>
      cases h
      exact .remove hcall
    · cases h
  | recv =>
    simp only [Service.step] at h
    split at h
    · next d queue hworker hqueue =>
      cases h
      exact .recv hworker hqueue
    · cases h
  | process d =>
    simp only [Service.step, Option.ite_none_right_eq_some] at h
    obtain ⟨hworker, heq⟩ := h
    cases heq
    exact .process hworker
  | workerRemove d =>
    simp only [Service.step, Option.ite_none_right_eq_some] at h
    obtain ⟨hworker, heq⟩ := h
    cases heq
    exact .workerRemove hworker
  | panic d =>
    simp only [Service.step, Option.ite_none_right_eq_some] at h
    obtain ⟨hworker, heq⟩ := h
    cases heq
    exact .panic hworker

/-- The service under any number of concurrent calls. -/
def service : Lts Service Action := .ofStep .new Service.step

/-! ## What is in the service -/

/-- The job the worker holds, until it has removed it. -/
def Worker.job : Worker → List Str
  | .processing d => [d]
  | .processed d => [d]
  | _ => []

theorem Worker.mem_job {w : Worker} {d : Str} :
    d ∈ w.job ↔ w = .processing d ∨ w = .processed d := by
  cases w with
  | processing e => simp [Worker.job, eq_comm]
  | processed e => simp [Worker.job, eq_comm]
  | notStarted => simp [Worker.job]
  | idle => simp [Worker.job]
  | dead => simp [Worker.job]

/-- The job the worker has still to run. -/
def Worker.unprocessed : Worker → List Str
  | .processing d => [d]
  | _ => []

/-- The domains of the calls that are between their steps, of the queued jobs
and of the job in process. -/
def Service.active (s : Service) : List Str :=
  s.calls.map (·.domain) ++ (s.queue ++ s.worker.job)

/-- The same without a job that has been run already. -/
def Service.unprocessed (s : Service) : List Str :=
  s.calls.map (·.domain) ++ (s.queue ++ s.worker.unprocessed)

/-- No call is between its steps and no job is left. -/
structure Service.Drained (s : Service) : Prop where
  calls : s.calls = []
  queue : s.queue = []
  worker : s.worker.job = []

/-- `process_domain` has returned for the domain after its first `enqueue`. -/
def ProcessedAfterFirst (d : Str) (tr : List Action) : Prop :=
  ∃ pre post, tr = pre ++ .enqueue d :: post ∧ .enqueue d ∉ pre ∧ .process d ∈ post

/-! ## The worker stays -/

/-- While nothing panics: there is a worker exactly when there is a channel, and
no send fails. -/
structure Service.Live (s : Service) : Prop where
  started : s.sender = true ↔ s.worker ≠ .notStarted
  alive : s.worker ≠ .dead
  spawned : s.spawned = if s.sender then 1 else 0
  sending : ∀ c ∈ s.calls, c.phase = .send → s.sender = true
  sent : ∀ c ∈ s.calls, c.phase ≠ .remove

theorem Service.Live.receives {s : Service} (h : s.Live) (hsender : s.sender = true) :
    s.worker.receives = true := by
  have hstarted := h.started.mp hsender
  have halive := h.alive
  cases hw : s.worker with
  | notStarted => exact absurd hw hstarted
  | dead => exact absurd hw halive
  | idle => rfl
  | processing d => rfl
  | processed d => rfl

theorem Service.Live.ensureWorker {s : Service} (h : s.Live) : s.ensureWorker.Live := by
  rw [Service.ensureWorker]
  split
  · exact h
  · next hsender =>
    refine ⟨by simp, by simp, ?_, fun c hc hphase => ?_, h.sent⟩
    · have := h.spawned
      rw [if_neg hsender] at this
      simp [this]
    · exact absurd (h.sending c hc hphase) hsender

/-! ## What a step does -/

/-- A step that does not panic inserts a domain, moves domains around, or
removes one. -/
inductive Effect (s : Service) (a : Action) (s' : Service) : Prop where
  | insert (d : Str) (label : a = .enqueue d) (fresh : d ∉ s.inFlight)
      (inFlight : s'.inFlight = Insert.insert d s.inFlight) (active : s'.active = d :: s.active)
  | keep (inFlight : s'.inFlight = s.inFlight) (active : s'.active.Perm s.active)
  | erase (d : Str) (inFlight : s'.inFlight = s.inFlight.erase d)
      (active : s.active.Perm (d :: s'.active))

/-- A job leaves the unprocessed ones by being run; an `enqueue` finds its domain
in flight or adds it to them. -/
structure Progress (s : Service) (a : Action) (s' : Service) : Prop where
  kept : ∀ d ∈ s.unprocessed, d ∈ s'.unprocessed ∨ a = .process d
  enqueued : ∀ d, a = .enqueue d → d ∈ s.inFlight ∨ d ∈ s'.unprocessed

theorem map_domain_set {calls : List Call} {i : Nat} {d : Str} {p : Phase}
    (h : calls[i]? = some ⟨d, p⟩) (q : Phase) :
    (calls.set i ⟨d, q⟩).map (·.domain) = calls.map (·.domain) := by
  obtain ⟨hi, hget⟩ := List.getElem?_eq_some_iff.mp h
  rw [List.map_set]
  refine List.ext_getElem (by simp) fun j h₁ h₂ => ?_
  rw [List.getElem_set]
  split
  · next hij => subst hij; simp [hget]
  · rfl

theorem map_domain_eraseIdx {calls : List Call} {i : Nat} {c : Call}
    (h : calls[i]? = some c) :
    (calls.map (·.domain)).Perm (c.domain :: (calls.eraseIdx i).map (·.domain)) := by
  obtain ⟨hi, hget⟩ := List.getElem?_eq_some_iff.mp h
  have hperm := (List.getElem_cons_eraseIdx_perm hi).map (·.domain)
  rw [hget] at hperm
  exact hperm.symm

theorem active_ensureWorker (s : Service) (hidle : s.sender = false → s.worker = .notStarted) :
    s.ensureWorker.worker.job = s.worker.job ∧
      s.ensureWorker.worker.unprocessed = s.worker.unprocessed := by
  rw [Service.ensureWorker]
  split
  · exact ⟨rfl, rfl⟩
  · next h =>
    rw [hidle (Bool.eq_false_of_not_eq_true h)]
    exact ⟨rfl, rfl⟩

/-- A worker at another point of its loop is still there. -/
theorem Service.Live.move {s : Service} (h : s.Live) {w : Worker} (hs : s.worker ≠ .notStarted)
    (hw : w ≠ .notStarted) (hdead : w ≠ .dead) (inFlight : Finset Str) (queue : List Str) :
    Service.Live { s with worker := w, inFlight := inFlight, queue := queue } where
  started := iff_of_true (h.started.mpr hs) hw
  alive := hdead
  spawned := h.spawned
  sending := h.sending
  sent := h.sent

section Steps
variable {s s' : Service} (h : s.Live)
include h

theorem Service.Live.enqueue_step {d : Str} (hstep : s.step (.enqueue d) = some s') :
    s'.Live ∧ Effect s (.enqueue d) s' ∧ Progress s (.enqueue d) s' := by
  cases steps_of_step hstep with
  | inFlight hmem =>
    exact ⟨h, .keep rfl (.refl _), fun _ hd => .inl hd, fun e he => by cases he; exact .inl hmem⟩
  | enqueue hnew =>
    refine ⟨⟨h.started, h.alive, h.spawned, fun c hc hphase => ?_, fun c hc => ?_⟩,
      .insert d rfl hnew rfl rfl, fun e he => .inl (List.mem_cons_of_mem _ he),
      fun e he => by cases he; exact .inr (List.mem_cons_self ..)⟩
    · rcases List.mem_cons.mp hc with rfl | hc
      · cases hphase
      · exact h.sending c hc hphase
    · rcases List.mem_cons.mp hc with rfl | hc
      · simp
      · exact h.sent c hc

theorem Service.Live.ensureWorker_step {i : Nat} (hstep : s.step (.ensureWorker i) = some s') :
    s'.Live ∧ Effect s (.ensureWorker i) s' ∧ Progress s (.ensureWorker i) s' := by
  cases steps_of_step hstep with
  | ensureWorker hcall =>
    have hsame := active_ensureWorker s fun hsender => by
      by_contra hw
      rw [h.started.mpr hw] at hsender
      cases hsender
    have hlive := h.ensureWorker
    have hrest : s.ensureWorker.queue = s.queue ∧ s.ensureWorker.inFlight = s.inFlight := by
      rw [Service.ensureWorker]
      split <;> exact ⟨rfl, rfl⟩
    have hsender : s.ensureWorker.sender = true := by
      rw [Service.ensureWorker]
      split
      · assumption
      · rfl
    refine ⟨⟨hlive.started, hlive.alive, hlive.spawned, fun _ _ _ => hsender, fun c hc => ?_⟩,
      .keep hrest.2 ?_, ⟨fun e he => .inl ?_, fun e he => by cases he⟩⟩
    · rcases List.mem_or_eq_of_mem_set hc with hc | rfl
      · exact h.sent c hc
      · simp
    · simp only [Service.active, map_domain_set hcall, hsame.1, hrest.1]
      exact .refl _
    · simpa only [Service.unprocessed, map_domain_set hcall, hsame.2, hrest.1] using he

/-- A send hands the domain from its call to the queue. -/
theorem Service.Live.send_step {i : Nat} (hstep : s.step (.send i) = some s') :
    s'.Live ∧ Effect s (.send i) s' ∧ Progress s (.send i) s' := by
  cases steps_of_step hstep with
  | sendFails hcall hgone =>
    rw [h.receives (h.sending _ (List.mem_of_getElem? hcall) rfl)] at hgone
    cases hgone
  | @send i d hcall hreceives =>
    have hperm := map_domain_eraseIdx hcall
    -- the same for the jobs in process and for those still to run
    have hmove : ∀ job : List Str,
        ((s.calls.eraseIdx i).map (·.domain) ++ (s.queue ++ [d] ++ job)).Perm
          (s.calls.map (·.domain) ++ (s.queue ++ job)) := by
      intro job
      refine .trans ?_ (hperm.symm.append_right _)
      rw [List.append_assoc s.queue, ← List.append_assoc, List.singleton_append]
      exact List.perm_middle.trans (by rw [List.cons_append, List.append_assoc])
    refine ⟨⟨h.started, h.alive, h.spawned,
        fun c hc => h.sending c (List.mem_of_mem_eraseIdx hc),
        fun c hc => h.sent c (List.mem_of_mem_eraseIdx hc)⟩,
      .keep rfl (hmove _), ⟨fun e he => .inl ((hmove _).mem_iff.mpr he), fun e he => by cases he⟩⟩

/-- The worker takes the first job of the queue. -/
theorem Service.Live.recv_step (hstep : s.step .recv = some s') :
    s'.Live ∧ Effect s .recv s' ∧ Progress s .recv s' := by
  cases steps_of_step hstep with
  | @recv d queue hw hq =>
    have hactive : (s.calls.map (·.domain) ++ (queue ++ [d])).Perm
        (s.calls.map (·.domain) ++ (d :: queue ++ [])) := by
      rw [List.append_nil]
      exact (List.perm_append_singleton d queue).append_left _
    refine ⟨h.move (by rw [hw]; simp) (by simp) (by simp) s.inFlight queue, .keep rfl ?_,
      ⟨fun e he => .inl ?_, fun e he => by cases he⟩⟩
    · simp only [Service.active, hw, hq]
      exact hactive
    · simp only [Service.unprocessed, hw, hq] at he ⊢
      exact hactive.mem_iff.mpr he

theorem Service.Live.process_step {d : Str} (hstep : s.step (.process d) = some s') :
    s'.Live ∧ Effect s (.process d) s' ∧ Progress s (.process d) s' := by
  cases steps_of_step hstep with
  | process hw =>
    refine ⟨h.move (by rw [hw]; simp) (by simp) (by simp) s.inFlight s.queue, .keep rfl ?_,
      ⟨fun e he => ?_, fun e he => by cases he⟩⟩
    · simp only [Service.active, hw]
      exact .refl _
    · simp only [Service.unprocessed, hw, Worker.unprocessed, List.mem_append,
        List.mem_singleton] at he ⊢
      rcases he with he | he | rfl
      · exact .inl (.inl he)
      · exact .inl (.inr (.inl he))
      · exact .inr rfl

/-- The job leaves the service when the worker has removed it. -/
theorem Service.Live.workerRemove_step {d : Str} (hstep : s.step (.workerRemove d) = some s') :
    s'.Live ∧ Effect s (.workerRemove d) s' ∧ Progress s (.workerRemove d) s' := by
  cases steps_of_step hstep with
  | workerRemove hw =>
    refine ⟨h.move (by rw [hw]; simp) (by simp) (by simp) (s.inFlight.erase d) s.queue,
      .erase d rfl ?_, ⟨fun e he => .inl ?_, fun e he => by cases he⟩⟩
    · simp only [Service.active, hw, Worker.job, List.append_nil]
      rw [← List.append_assoc]
      exact List.perm_append_singleton d _
    · rw [Service.unprocessed, hw] at he
      exact he

/-- **Every step** but a panic keeps the worker, and moves a job at most one place. -/
theorem Service.Live.step {a : Action} (hstep : s.step a = some s') (hp : ∀ d, a ≠ .panic d) :
    s'.Live ∧ Effect s a s' ∧ Progress s a s' := by
  cases a with
  | enqueue d => exact h.enqueue_step hstep
  | ensureWorker i => exact h.ensureWorker_step hstep
  | send i => exact h.send_step hstep
  | remove i =>
    cases steps_of_step hstep with
    | remove hcall => exact absurd rfl (h.sent _ (List.mem_of_getElem? hcall))
  | recv => exact h.recv_step hstep
  | process d => exact h.process_step hstep
  | workerRemove d => exact h.workerRemove_step hstep
  | panic d => exact absurd rfl (hp d)

end Steps

/-! ## Runs -/

/-- The set and the jobs agree, and no job is lost. -/
structure Inv (tr : List Action) (s : Service) : Prop where
  live : s.Live
  nodup : s.active.Nodup
  exact : ∀ d, d ∈ s.inFlight ↔ d ∈ s.active
  enqueued : ∀ d ∈ s.active, .enqueue d ∈ tr
  processed : ∀ d, .enqueue d ∈ tr → ProcessedAfterFirst d tr ∨ d ∈ s.unprocessed

theorem ProcessedAfterFirst.append {d : Str} {tr : List Action} (h : ProcessedAfterFirst d tr)
    (a : Action) : ProcessedAfterFirst d (tr ++ [a]) := by
  obtain ⟨pre, post, rfl, hpre, hpost⟩ := h
  exact ⟨pre, post ++ [a], by simp, hpre, List.mem_append_left _ hpost⟩

theorem ProcessedAfterFirst.process {d : Str} {tr : List Action} (h : .enqueue d ∈ tr) :
    ProcessedAfterFirst d (tr ++ [.process d]) := by
  obtain ⟨pre, post, rfl, hpre⟩ := List.eq_append_cons_of_mem h
  exact ⟨pre, post ++ [.process d], by simp, hpre, by simp⟩

theorem unprocessed_subset_active (s : Service) : s.unprocessed ⊆ s.active := by
  intro d hd
  simp only [Service.unprocessed, Service.active, List.mem_append] at hd ⊢
  rcases hd with hd | hd | hd
  · exact .inl hd
  · exact .inr (.inl hd)
  · refine .inr (.inr ?_)
    cases hw : s.worker <;> simp_all [Worker.unprocessed, Worker.job]

theorem Effect.nodup {s s' : Service} {a : Action} (h : Effect s a s')
    (hexact : ∀ d, d ∈ s.inFlight ↔ d ∈ s.active) (hnodup : s.active.Nodup) :
    s'.active.Nodup := by
  cases h with
  | insert d label fresh inFlight active =>
    rw [active, List.nodup_cons]
    exact ⟨fun hmem => fresh ((hexact d).mpr hmem), hnodup⟩
  | keep inFlight active => exact active.nodup_iff.mpr hnodup
  | erase d inFlight active => exact (List.nodup_cons.mp (active.nodup_iff.mp hnodup)).2

theorem Effect.exact {s s' : Service} {a : Action} (h : Effect s a s')
    (hexact : ∀ d, d ∈ s.inFlight ↔ d ∈ s.active) (hnodup : s.active.Nodup) (e : Str) :
    e ∈ s'.inFlight ↔ e ∈ s'.active := by
  cases h with
  | insert d label fresh inFlight active =>
    rw [inFlight, active, Finset.mem_insert, List.mem_cons, hexact]
  | keep inFlight active => rw [inFlight, hexact, active.mem_iff]
  | erase d inFlight active =>
    have hd : d ∉ s'.active := (List.nodup_cons.mp (active.nodup_iff.mp hnodup)).1
    rw [inFlight, Finset.mem_erase, hexact, active.mem_iff, List.mem_cons]
    constructor
    · rintro ⟨hne, rfl | hmem⟩
      · exact absurd rfl hne
      · exact hmem
    · exact fun hmem => ⟨fun he => hd (he ▸ hmem), .inr hmem⟩

/-- Only `enqueue` brings a domain into the service. -/
theorem Effect.enqueued {s s' : Service} {a : Action} (h : Effect s a s') {d : Str}
    (hd : d ∈ s'.active) : d ∈ s.active ∨ a = .enqueue d := by
  cases h with
  | insert e label fresh inFlight active =>
    rw [active] at hd
    rcases List.mem_cons.mp hd with rfl | hmem
    · exact .inr label
    · exact .inl hmem
  | keep inFlight active => exact .inl (active.mem_iff.mp hd)
  | erase e inFlight active => exact .inl (active.mem_iff.mpr (List.mem_cons_of_mem _ hd))

theorem inductive_inv : service.Inductive (fun a => ∀ d, a ≠ .panic d) Inv where
  start := by
    rintro _ rfl
    refine ⟨⟨by simp [Service.new], by simp [Service.new], rfl, ?_, ?_⟩, List.nodup_nil, ?_, ?_, ?_⟩
    all_goals simp [Service.new, Service.active, Worker.job]
  next := by
    intro tr s a s' hp h hstep
    obtain ⟨hlive, heffect, hprogress⟩ := h.live.step hstep hp
    refine ⟨hlive, heffect.nodup h.exact h.nodup, heffect.exact h.exact h.nodup, ?_, ?_⟩
    · intro d hd
      rcases heffect.enqueued hd with hd | rfl
      · exact List.mem_append_left _ (h.enqueued d hd)
      · simp
    · intro d hd
      by_cases hold : .enqueue d ∈ tr
      · rcases h.processed d hold with hdone | hpending
        · exact .inl (hdone.append a)
        · rcases hprogress.kept d hpending with hkept | rfl
          · exact .inr hkept
          · exact .inl (.process hold)
      · -- the first `enqueue` of the domain: it cannot be in flight
        have hlabel : a = .enqueue d := by
          rcases List.mem_append.mp hd with hd | hd
          · exact absurd hd hold
          · exact (List.mem_singleton.mp hd).symm
        rcases hprogress.enqueued d hlabel with hin | hnew
        · exact absurd (h.enqueued d ((h.exact d).mp hin)) hold
        · exact .inr hnew

/-- **Deduplication without leaks.** In every state of every run in which
`process_domain` does not panic: no domain is twice among the jobs and the calls
between their steps, `in_flight` is the set of these domains, no send has failed
and at most one worker was started; and when nothing is left, `in_flight` is
empty and every domain has been processed after its first `enqueue`. -/
theorem enqueue_dedup {tr : List Action} {s : Service} (h : service.Run tr s)
    (hp : ∀ a ∈ tr, ∀ d, a ≠ .panic d) :
    s.active.Nodup ∧ (∀ d, d ∈ s.inFlight ↔ d ∈ s.active) ∧ (∀ c ∈ s.calls, c.phase ≠ .remove) ∧
      s.spawned ≤ 1 ∧
      (s.Drained → s.inFlight = ∅ ∧ ∀ d, .enqueue d ∈ tr → ProcessedAfterFirst d tr) := by
  have hinv := h.invariant inductive_inv hp
  refine ⟨hinv.nodup, hinv.exact, hinv.live.sent, ?_, fun hdrained => ?_⟩
  · rw [hinv.live.spawned]
    split <;> omega
  · have hempty : s.active = [] := by
      rw [Service.active, hdrained.calls, hdrained.queue, hdrained.worker]
      rfl
    refine ⟨Finset.eq_empty_of_forall_notMem fun d hd => ?_, fun d hd => ?_⟩
    · have := (hinv.exact d).mp hd
      rw [hempty] at this
      cases this
    · refine (hinv.processed d hd).resolve_right fun hpending => ?_
      have := unprocessed_subset_active s hpending
      rw [hempty] at this
      cases this

/-- Two calls for one domain, of which the second finds it in flight, and one for another,
whose steps come between those of the first. -/
def twoDomains : List Action :=
  [.enqueue ['d'], .enqueue ['e'], .ensureWorker 1, .enqueue ['d'], .ensureWorker 0, .send 1,
    .recv, .send 0, .process ['d'], .workerRemove ['d'], .recv, .process ['e'],
    .workerRemove ['e']]

/-- After them, the service is empty again and has run both jobs. -/
theorem enqueue_dedup_twoDomains :
    ProcessedAfterFirst ['d'] twoDomains ∧ ProcessedAfterFirst ['e'] twoDomains := by
  have hrun : service.Run twoDomains ⟨true, ∅, [], [], .idle, 1⟩ := Lts.run_of_foldlM (by decide)
  have hdone := ((enqueue_dedup hrun (by simp [twoDomains])).2.2.2.2 ⟨rfl, rfl, rfl⟩).2
  exact ⟨hdone ['d'] (by simp [twoDomains]), hdone ['e'] (by simp [twoDomains])⟩

end Gurted.Indexing
