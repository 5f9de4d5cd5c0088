import Gurted.Indexing.Service

/-!
# The indexing service after a crash

A panic of `process_domain` ends the worker thread and drops the receiver with
the queued jobs, while the sender stays cached and the domains stay in
`in_flight`. `noneDropped_iff` says in which runs an `enqueue` call that returns
has left its domain with a live worker.
-/

namespace Gurted.Indexing

open Gurted Gurted.Lib

/-! ## Returning calls -/

/-- The steps by which an `enqueue` call for a domain returns: the domain is in
flight already, the job is sent, or the domain has been removed after a send that
failed. -/
inductive Returns (s : Service) (d : Str) : Action → Prop
  | early : d ∈ s.inFlight → Returns s d (.enqueue d)
  | sent {i : Nat} : s.calls[i]? = some ⟨d, .send⟩ → s.worker.receives = true →
      Returns s d (.send i)
  | failed {i : Nat} : s.calls[i]? = some ⟨d, .remove⟩ → Returns s d (.remove i)

/-- The domain is queued for a live worker, or the worker runs `process_domain`
for it. -/
def Service.Taken (s : Service) (d : Str) : Prop :=
  s.worker.receives = true ∧ (d ∈ s.queue ∨ s.worker = .processing d)

/-- In the run `tr`, after the steps `pre`, an `enqueue` call for `d` returns by
the step `a` from `s` to `s'`. -/
structure ReturnIn (tr pre : List Action) (s : Service) (a : Action) (s' : Service) (d : Str) :
    Prop where
  before : pre ++ [a] <+: tr
  run : service.Run pre s
  step : s.step a = some s'
  returns : Returns s d a

/-- Whenever a call of the run returns, its domain is taken. -/
def NoneDropped (tr : List Action) : Prop :=
  ∀ pre s a s' d, ReturnIn tr pre s a s' d → s'.Taken d

/-- Nothing has panicked before the call; and if it returns early, no other call
for the domain is between its steps and the worker is not about to remove it. -/
structure Undisturbed (pre : List Action) (s : Service) (a : Action) (d : Str) : Prop where
  noPanic : ∀ e, .panic e ∉ pre
  noCall : a = .enqueue d → ∀ c ∈ s.calls, c.domain ≠ d
  notProcessed : a = .enqueue d → s.worker ≠ .processed d

/-! ## What a crash leaves -/

/-- In any run: the sender stays once a worker was started, no job is queued
before that, and a worker that has panicked stays dead. -/
structure Remains (tr : List Action) (s : Service) : Prop where
  sender : s.worker ≠ .notStarted → s.sender = true
  queue : s.worker = .notStarted → s.queue = []
  dead : ∀ e, .panic e ∈ tr → s.worker = .dead

theorem Remains.mono {tr : List Action} {s s' : Service} {a : Action} (h : Remains tr s)
    (ha : ∀ e, a ≠ .panic e) (hsender : s'.sender = s.sender) (hworker : s'.worker = s.worker)
    (hqueue : s.worker = .notStarted → s'.queue = s.queue) : Remains (tr ++ [a]) s' where
  sender := by
    rw [hsender, hworker]
    exact h.sender
  queue := by
    intro hw
    rw [hworker] at hw
    rw [hqueue hw]
    exact h.queue hw
  dead := by
    intro e he
    rw [hworker]
    rcases List.mem_append.mp he with he | he
    · exact h.dead e he
    · exact absurd (List.mem_singleton.mp he).symm (ha e)

/-- A step of a worker that lives. -/
theorem Remains.move {tr : List Action} {s s' : Service} {a : Action} (h : Remains tr s)
    (ha : ∀ e, a ≠ .panic e) (hsender : s'.sender = s.sender) (hs : s.worker ≠ .notStarted)
    (hlive : s.worker ≠ .dead) (hs' : s'.worker ≠ .notStarted) : Remains (tr ++ [a]) s' where
  sender := by
    intro _
    rw [hsender]
    exact h.sender hs
  queue := by
    intro hw
    exact absurd hw hs'
  dead := by
    intro e he
    rcases List.mem_append.mp he with he | he
    · exact absurd (h.dead e he) hlive
    · exact absurd (List.mem_singleton.mp he).symm (ha e)

theorem Remains.ensureWorker {tr : List Action} {s s' : Service} {i : Nat} (h : Remains tr s)
    (hstep : s.step (.ensureWorker i) = some s') : Remains (tr ++ [.ensureWorker i]) s' := by
  cases Service.steps_of_step hstep with
  | ensureWorker hcall =>
    rw [Service.ensureWorker]
    split
    · exact h.mono (by simp) rfl rfl fun _ => rfl
    · next hsender =>
      -- the thread is started here, so none was before and none can have died
      have hnone : s.worker = .notStarted := by
        by_contra hw
        exact hsender (h.sender hw)
      refine ⟨by simp, by simp, fun e he => ?_⟩
      rcases List.mem_append.mp he with he | he
      · have := h.dead e he
        rw [hnone] at this
        cases this
      · cases List.mem_singleton.mp he

theorem inductive_remains : service.Inductive (fun _ => True) Remains where
  start := by
    intro s hs
    cases hs
    exact ⟨by simp [Service.new], by simp [Service.new], by simp⟩
  next := by
    intro tr s a s' _ h hstep
    change s.step a = some s' at hstep
    cases Service.steps_of_step hstep with
    | inFlight _ => exact h.mono (by simp) rfl rfl fun _ => rfl
    | enqueue _ => exact h.mono (by simp) rfl rfl fun _ => rfl
    | ensureWorker _ => exact h.ensureWorker hstep
    | send _ hreceives =>
      refine h.mono (by simp) rfl rfl fun hw => ?_
      rw [hw] at hreceives
      cases hreceives
    | sendFails _ _ => exact h.mono (by simp) rfl rfl fun _ => rfl
    | remove _ => exact h.mono (by simp) rfl rfl fun _ => rfl
    | recv hw _ => exact h.move (by simp) rfl (by simp [hw]) (by simp [hw]) (by simp)
    | process hw => exact h.move (by simp) rfl (by simp [hw]) (by simp [hw]) (by simp)
    | workerRemove hw => exact h.move (by simp) rfl (by simp [hw]) (by simp [hw]) (by simp)
    | panic hw => exact ⟨fun _ => h.sender (by simp [hw]), by simp, fun _ _ => rfl⟩

theorem Remains.of_run {tr : List Action} {s : Service} (h : service.Run tr s) : Remains tr s :=
  h.invariant inductive_remains fun _ _ => trivial

/-! ## Which domains are taken -/

/-- No return touches the worker, and only a send touches the queue. -/
theorem Returns.after {s s' : Service} {d : Str} {a : Action} (h : Returns s d a)
    (hstep : s.step a = some s') :
    s'.worker = s.worker ∧
      s'.queue = match a with | .send _ => s.queue ++ [d] | _ => s.queue := by
  cases h with
  | early hmem =>
    simp only [Service.step, if_pos hmem] at hstep
    cases hstep
    exact ⟨rfl, rfl⟩
  | sent hcall hreceives =>
    simp only [Service.step, hcall, if_pos hreceives] at hstep
    cases hstep
    exact ⟨rfl, rfl⟩
  | failed hcall =>
    simp only [Service.step, hcall] at hstep
    cases hstep
    exact ⟨rfl, rfl⟩

/-- After a panic no domain is taken. -/
theorem not_taken_of_panic {tr pre : List Action} {s s' : Service} {a : Action} {d e : Str}
    (h : ReturnIn tr pre s a s' d) (he : .panic e ∈ pre) : ¬ s'.Taken d := by
  intro htaken
  have hdead := (Remains.of_run h.run).dead e he
  have hreceives := htaken.1
  rw [(h.returns.after h.step).1, hdead] at hreceives
  cases hreceives

/-- Before a panic, an early return finds its domain with the worker, except in
the two moments in which it is between a call and the worker. -/
theorem taken_iff_of_early {pre : List Action} {s : Service} {d : Str} (hinv : Inv pre s)
    (hremains : Remains pre s) (hmem : d ∈ s.inFlight) :
    s.Taken d ↔ (∀ c ∈ s.calls, c.domain ≠ d) ∧ s.worker ≠ .processed d := by
  have hactive := (hinv.exact d).mp hmem
  have hnodup := hinv.nodup
  simp only [Service.active] at hactive hnodup
  obtain ⟨-, htail, hdisjoint⟩ := List.nodup_append.mp hnodup
  have hjobs := (List.nodup_append.mp htail).2.2
  constructor
  · -- a domain is in one place only
    intro htaken
    have hqueued : d ∈ s.queue ++ s.worker.job := by
      rcases htaken.2 with hq | hw
      · exact List.mem_append_left _ hq
      · exact List.mem_append_right _ (Worker.mem_job.mpr (.inl hw))
    refine ⟨fun c hc hcd => ?_, fun hw => ?_⟩
    · exact hdisjoint d (hcd ▸ List.mem_map_of_mem hc) d hqueued rfl
    · rcases htaken.2 with hq | hw'
      · exact hjobs d hq d (Worker.mem_job.mpr (.inr hw)) rfl
      · rw [hw] at hw'
        cases hw'
  · intro hsettled
    obtain ⟨hcalls, hprocessed⟩ := hsettled
    have hplace : d ∈ s.queue ∨ s.worker = .processing d := by
      rcases List.mem_append.mp hactive with hc | hrest
      · obtain ⟨c, hc, hcd⟩ := List.mem_map.mp hc
        exact absurd hcd (hcalls c hc)
      · rcases List.mem_append.mp hrest with hq | hjob
        · exact .inl hq
        · exact .inr ((Worker.mem_job.mp hjob).resolve_right hprocessed)
    refine ⟨hinv.live.receives (hremains.sender fun hw => ?_), hplace⟩
    rcases hplace with hq | hw'
    · rw [hremains.queue hw] at hq
      cases hq
    · rw [hw] at hw'
      cases hw'

theorem taken_iff {tr pre : List Action} {s s' : Service} {a : Action} {d : Str}
    (h : ReturnIn tr pre s a s' d) : s'.Taken d ↔ Undisturbed pre s a d := by
  by_cases hpanic : ∃ e, .panic e ∈ pre
  · obtain ⟨e, he⟩ := hpanic
    exact iff_of_false (not_taken_of_panic h he) fun hund => hund.noPanic e he
  · have hno : ∀ e, .panic e ∉ pre := fun e he => hpanic ⟨e, he⟩
    have hinv : Inv pre s := h.run.invariant inductive_inv fun a ha e hae => hno e (hae ▸ ha)
    obtain ⟨hworker, hqueue⟩ := h.returns.after h.step
    have hiff : s'.Taken d ↔
        s'.worker.receives = true ∧ (d ∈ s'.queue ∨ s'.worker = .processing d) := Iff.rfl
    cases h.returns with
    | early hmem =>
      rw [hiff, hworker, hqueue, ← Service.Taken,
        taken_iff_of_early hinv (Remains.of_run h.run) hmem]
      exact ⟨fun hs => ⟨hno, fun _ => hs.1, fun _ => hs.2⟩,
        fun hund => ⟨hund.noCall rfl, hund.notProcessed rfl⟩⟩
    | sent hcall hreceives =>
      refine iff_of_true ⟨by rw [hworker, hreceives], .inl ?_⟩ ⟨hno, by simp, by simp⟩
      rw [hqueue]
      simp
    | failed hcall =>
      -- without a panic no send has failed
      exact absurd rfl (hinv.live.sent _ (List.mem_of_getElem? hcall))

/-- **Which runs drop no job.** In a run every call that returns leaves its domain
with a live worker if and only if every call returns undisturbed: before any
panic, and not early in a moment in which its domain is between a call and the
worker. -/
theorem noneDropped_iff (tr : List Action) :
    NoneDropped tr ↔ ∀ pre s a s' d, ReturnIn tr pre s a s' d → Undisturbed pre s a d := by
  constructor
  · intro h pre s a s' d hret
    exact (taken_iff hret).mp (h pre s a s' d hret)
  · intro h pre s a s' d hret
    exact (taken_iff hret).mpr (h pre s a s' d hret)

/-- The first job panics; then another domain is submitted. -/
def crashed : List Action :=
  [.enqueue ['a'], .ensureWorker 0, .send 0, .recv, .panic ['a'],
    .enqueue ['b'], .ensureWorker 0, .send 0, .remove 0]

/-- The call for the second domain returns, and no worker will ever run it. -/
theorem not_noneDropped_crashed :
    (∃ s, service.Run crashed s) ∧ ¬ NoneDropped crashed := by
  have hbefore : service.Run (crashed.take 8)
      ⟨true, {['b'], ['a']}, [⟨['b'], .remove⟩], [], .dead, 1⟩ := Lts.run_of_foldlM (by decide)
  have hstep : Service.step ⟨true, {['b'], ['a']}, [⟨['b'], .remove⟩], [], .dead, 1⟩ (.remove 0)
      = some ⟨true, {['a']}, [], [], .dead, 1⟩ := by decide
  refine ⟨⟨_, .next hbefore hstep⟩, fun h => ?_⟩
  have htaken := h (crashed.take 8) _ _ _ ['b']
    ⟨by decide, hbefore, hstep, .failed rfl⟩
  cases htaken.1

end Gurted.Indexing
