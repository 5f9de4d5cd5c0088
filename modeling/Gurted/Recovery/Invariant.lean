import Gurted.Recovery.Node

/-!
# What holds through any number of restarts

`Node.Sound` holds in every state of every run of a server: the names and states of the
rows, and the agreement of `in_flight` with the jobs of the service as long as its worker
lives. No row goes and no ready domain is pending again (`Kept`).
-/

namespace Gurted.Recovery

open Gurted Gurted.Lib Gurted.Storage Gurted.Indexing Gurted.Router

variable {lower : Str → Str} {s s' : Node lower} {e : Event}

/-! ## What a step can do -/

inductive Node.Steps (s : Node lower) : Event → Node lower → Prop
  | submit {d : Str} (hvalid : isValidDomain d = true) :
      Steps s (.submit d) { s with upserts := d :: s.upserts, handlers := d :: s.handlers }
  | enqueue {d : Str} {service : Service} (hmem : d ∈ s.handlers)
      (hservice : enqueueDomain s.service d = some service) :
      Steps s (.enqueue d) { s with handlers := s.handlers.erase d, service := service }
  | upsert {d : Str} {now id : Nat} {table : DomainsTable lower} (hmem : d ∈ s.upserts)
      (htable : upsertDomainSubmission s.table d (some "api".toList) now = .ok (id, table)) :
      Steps s (.upsert d now) { s with table := table, upserts := s.upserts.erase d }
  | upsertError {d : Str} {now : Nat} {err : StorageError} (hmem : d ∈ s.upserts)
      (herror : upsertDomainSubmission s.table d (some "api".toList) now = .error err) :
      Steps s (.upsert d now) { s with upserts := s.upserts.erase d }
  | upsertFails {d : Str} (hmem : d ∈ s.upserts) :
      Steps s (.upsertFails d) { s with upserts := s.upserts.erase d }
  | service {a : Action} {service : Service} (hinner : Inner a = true)
      (hservice : s.service.step a = some service) :
      Steps s (.service a) { s with service := service }
  | markReady {d : Str} {service : Service} {table : DomainsTable lower}
      (hservice : s.service.step (.process d) = some service)
      (htable : setDomainStatus s.table d "ready".toList = .ok table) :
      Steps s (.markReady d) { s with table := table, service := service, failed := 0 }
  | markFails {d : Str} (hworker : s.service.worker = .processing d)
      (hleft : s.failed + 1 < maxAttempts) :
      Steps s (.markFails d) { s with failed := s.failed + 1 }
  | giveUp {d : Str} {service : Service} (hlast : maxAttempts ≤ s.failed + 1)
      (hservice : s.service.step (.process d) = some service) :
      Steps s (.giveUp d) { s with service := service, failed := 0 }
  | panic {d : Str} {service : Service} (hservice : s.service.step (.panic d) = some service) :
      Steps s (.panic d) { s with service := service }
  | list {env : BootstrapEnv} (hboot : s.boot = none) :
      Steps s (.list env) { s with boot := some (env.domains s.table) }
  | listFails (hboot : s.boot = none) : Steps s .listFails { s with boot := some [] }
  | resume {d : Str} {left : List Str} {service : Service} (hboot : s.boot = some (d :: left))
      (hservice : enqueueDomain s.service d = some service) :
      Steps s .resume { s with service := service, boot := some left }
  | restart : Steps s .restart (.fresh s.table)

theorem Node.steps_of_step (h : s.step e = some s') : s.Steps e s' := by
  cases e with
  | submit d =>
    simp only [Node.step, Option.ite_none_right_eq_some] at h
    obtain ⟨hvalid, heq⟩ := h
    cases heq
    exact .submit hvalid
  | enqueue d =>
    simp only [Node.step, Option.ite_none_right_eq_some, Option.map_eq_some_iff] at h
    obtain ⟨hmem, service, hservice, rfl⟩ := h
    exact .enqueue hmem hservice
  | upsert d now =>
    simp only [Node.step, Option.ite_none_right_eq_some] at h
    obtain ⟨hmem, h⟩ := h
    split at h
    · next id table htable =>
      cases h
      exact .upsert hmem htable
    · next err herror =>
      cases h
      exact .upsertError hmem herror
  | upsertFails d =>
    simp only [Node.step, Option.ite_none_right_eq_some] at h
    obtain ⟨hmem, heq⟩ := h
    cases heq
    exact .upsertFails hmem
  | service a =>
    simp only [Node.step, Option.ite_none_right_eq_some, Option.map_eq_some_iff] at h
    obtain ⟨hinner, service, hservice, rfl⟩ := h
    exact .service hinner hservice
  | markReady d =>
    simp only [Node.step] at h
    split at h
    · next service table hservice htable =>
      cases h
      exact .markReady hservice htable
    · cases h
  | markFails d =>
    simp only [Node.step, Option.ite_none_right_eq_some] at h
    obtain ⟨⟨hworker, hleft⟩, heq⟩ := h
    cases heq
    exact .markFails hworker hleft
  | giveUp d =>
    simp only [Node.step, Option.ite_none_right_eq_some, Option.map_eq_some_iff] at h
    obtain ⟨hlast, service, hservice, rfl⟩ := h
    exact .giveUp hlast hservice
  | panic d =>
    simp only [Node.step, Option.map_eq_some_iff] at h
    obtain ⟨service, hservice, rfl⟩ := h
    exact .panic hservice
  | list env =>
    simp only [Node.step, Option.ite_none_right_eq_some] at h
    obtain ⟨hboot, heq⟩ := h
    cases heq
    exact .list hboot
  | listFails =>
    simp only [Node.step, Option.ite_none_right_eq_some] at h
    obtain ⟨hboot, heq⟩ := h
    cases heq
    exact .listFails hboot
  | resume =>
    simp only [Node.step] at h
    split at h
    · next d left hboot =>
      rw [Option.map_eq_some_iff] at h
      obtain ⟨service, hservice, rfl⟩ := h
      exact .resume hboot hservice
    · cases h
  | restart =>
    cases h
    exact .restart

/-! ## The service of a process -/

/-- The set and the jobs of a service whose worker has not panicked. -/
structure Agrees (s : Service) : Prop where
  live : s.Live
  nodup : s.active.Nodup
  exact : ∀ d, d ∈ s.inFlight ↔ d ∈ s.active
  queue : s.worker = .notStarted → s.queue = []

theorem Agrees.new : Agrees .new := by
  refine ⟨⟨by simp [Service.new], by simp [Service.new], rfl, ?_, ?_⟩, List.nodup_nil, ?_,
    fun _ => rfl⟩
  all_goals simp [Service.new, Service.active, Worker.job]

/-- A job is queued only for a worker. -/
theorem queue_of_step {s s' : Service} {a : Action} (h : Agrees s) (hstep : s.step a = some s') :
    s'.worker = .notStarted → s'.queue = [] := by
  intro hw
  cases Service.steps_of_step hstep with
  | inFlight => exact h.queue hw
  | enqueue => exact h.queue hw
  | ensureWorker hcall =>
    have hqueue : s.ensureWorker.worker = .notStarted → s.ensureWorker.queue = [] := by
      rw [Service.ensureWorker]
      split
      · exact h.queue
      · intro hidle
        cases hidle
    exact hqueue hw
  | send hcall hreceives =>
    rw [show s.worker = .notStarted from hw] at hreceives
    cases hreceives
  | sendFails => exact h.queue hw
  | remove => exact h.queue hw
  | recv => cases hw
  | process => cases hw
  | workerRemove => cases hw
  | panic => cases hw

theorem Agrees.step {s s' : Service} {a : Action} (h : Agrees s) (hstep : s.step a = some s')
    (hp : ∀ d, a ≠ .panic d) : Agrees s' := by
  obtain ⟨hlive, heffect, -⟩ := h.live.step hstep hp
  exact ⟨hlive, heffect.nodup h.exact h.nodup, heffect.exact h.exact h.nodup,
    queue_of_step h hstep⟩

/-- The worker has panicked, and its sender is still cached. -/
def Crashed (s : Service) : Prop := s.worker = .dead ∧ s.sender = true

theorem Crashed.step {s s' : Service} {a : Action} (h : Crashed s) (hstep : s.step a = some s') :
    Crashed s' := by
  obtain ⟨hdead, hsender⟩ := h
  cases Service.steps_of_step hstep with
  | inFlight => exact ⟨hdead, hsender⟩
  | enqueue => exact ⟨hdead, hsender⟩
  | ensureWorker hcall =>
    rw [Service.ensureWorker, if_pos hsender]
    exact ⟨hdead, hsender⟩
  | send => exact ⟨hdead, hsender⟩
  | sendFails => exact ⟨hdead, hsender⟩
  | remove => exact ⟨hdead, hsender⟩
  | recv hworker => rw [hdead] at hworker; cases hworker
  | process hworker => rw [hdead] at hworker; cases hworker
  | workerRemove hworker => rw [hdead] at hworker; cases hworker
  | panic hworker => rw [hdead] at hworker; cases hworker

/-- A panic is the crash of a worker that has a sender. -/
theorem Agrees.panic {s s' : Service} {d : Str} (h : Agrees s)
    (hstep : s.step (.panic d) = some s') : Crashed s' := by
  cases Service.steps_of_step hstep with
  | panic hworker => exact ⟨rfl, h.live.started.mpr (by rw [hworker]; simp)⟩

theorem enqueueDomain_cases {s s' : Service} {d : Str} (h : enqueueDomain s d = some s') :
    (d = [] ∧ s' = s) ∨ s.step (.enqueue d) = some s' := by
  rw [enqueueDomain] at h
  split at h
  · next hempty =>
    cases h
    exact .inl ⟨List.isEmpty_iff.mp hempty, rfl⟩
  · exact .inr h

/-! ## The rows of the table -/

/-- Every row is of a domain as the statements use it, and pending or ready. -/
def Clean (t : DomainsTable lower) : Prop :=
  ∀ r ∈ t.rows, Normal r.name ∧ (r.status = .pending ∨ r.status = .ready)

theorem Clean.update {t : DomainsTable lower} (h : Clean t) {f : DomainRow → DomainRow}
    (hf : ∀ r, (f r).name = r.name)
    (hstatus : ∀ r, (f r).status = r.status ∨ (f r).status = .ready) : Clean (t.update f hf) := by
  intro r hr
  obtain ⟨r₀, hr₀, rfl⟩ := List.mem_map.mp hr
  obtain ⟨hnormal, hold⟩ := h r₀ hr₀
  rw [hf r₀]
  refine ⟨hnormal, ?_⟩
  rcases hstatus r₀ with hsame | hready
  · rw [hsame]
    exact hold
  · exact .inr hready

theorem Clean.upsert {t t' : DomainsTable lower} (h : Clean t) {d : Str} (hd : Normal d)
    {source : Option Str} {now id : Nat}
    (hupsert : upsertDomainSubmission t d source now = .ok (id, t')) : Clean t' := by
  have hne : d.isEmpty = false := by simpa using hd.ne_nil
  simp only [upsertDomainSubmission, hd.normalized, hne, Bool.false_eq_true, if_false] at hupsert
  split at hupsert
  · simp only [Except.ok.injEq, Prod.mk.injEq] at hupsert
    obtain ⟨-, rfl⟩ := hupsert
    refine h.update _ fun r => .inl ?_
    split <;> rfl
  · split at hupsert
    · cases hupsert
    · simp only [Except.ok.injEq, Prod.mk.injEq] at hupsert
      obtain ⟨-, rfl⟩ := hupsert
      intro r hr
      rcases List.mem_append.mp hr with hr | hr
      · exact h r hr
      · rw [List.mem_singleton] at hr
        subst hr
        exact ⟨hd, .inl rfl⟩

theorem Clean.setReady {t t' : DomainsTable lower} (h : Clean t) {d : Str}
    (hset : setDomainStatus t d "ready".toList = .ok t') : Clean t' := by
  have hready : DomainStatus.ofText "ready".toList = some .ready := by decide
  simp only [setDomainStatus, hready] at hset
  split at hset
  · cases hset
    exact h
  · cases hset
    refine h.update _ fun r => ?_
    split
    · exact .inr rfl
    · exact .inl rfl

/-- A domain with a row is pending or ready. -/
theorem Clean.statusOf {t : DomainsTable lower} (h : Clean t) {d : Str}
    (hd : t.statusOf d ≠ none) : t.statusOf d = some .pending ∨ t.statusOf d = some .ready := by
  obtain ⟨st, hst⟩ := Option.ne_none_iff_exists'.mp hd
  obtain ⟨r, hrows, rfl⟩ := DomainsTable.statusOf_eq_some_iff.mp hst
  have hr : r ∈ t.rowsOf d := by
    rw [hrows]
    exact List.mem_singleton_self r
  rw [hst, Option.some_inj, Option.some_inj]
  exact (h r (List.mem_of_mem_filter hr)).2

/-! ## Every state of every run -/

structure Node.Sound (s : Node lower) : Prop where
  table : Clean s.table
  upserts : ∀ d ∈ s.upserts, isValidDomain d = true
  service : Agrees s.service ∨ Crashed s.service

theorem Node.Sound.fresh {t : DomainsTable lower} (h : Clean t) : (Node.fresh t).Sound :=
  ⟨h, by simp [Node.fresh], .inl .new⟩

/-- A step of the service that is no panic. -/
theorem Node.Sound.service_step (h : s.Sound) {a : Action} {service : Service}
    (hstep : s.service.step a = some service) (hp : ∀ d, a ≠ .panic d) :
    Agrees service ∨ Crashed service :=
  h.service.imp (·.step hstep hp) (·.step hstep)

theorem Node.Sound.enqueueDomain (h : s.Sound) {d : Str} {service : Service}
    (hstep : enqueueDomain s.service d = some service) : Agrees service ∨ Crashed service := by
  rcases enqueueDomain_cases hstep with ⟨-, rfl⟩ | hstep
  · exact h.service
  · exact h.service_step hstep (by simp)

/-- **Every step** keeps the node sound and the rows in the table. -/
theorem Node.Sound.step (h : s.Sound) (hstep : s.step e = some s') :
    s'.Sound ∧ Kept s.table s'.table := by
  cases Node.steps_of_step hstep with
  | submit hvalid =>
    refine ⟨⟨h.table, fun d hd => ?_, h.service⟩, .refl _⟩
    rcases List.mem_cons.mp hd with rfl | hd
    · exact hvalid
    · exact h.upserts d hd
  | enqueue hmem hservice => exact ⟨⟨h.table, h.upserts, h.enqueueDomain hservice⟩, .refl _⟩
  | upsert hmem htable =>
    exact ⟨⟨h.table.upsert (normal_of_isValidDomain (h.upserts _ hmem)) htable,
      fun d hd => h.upserts d (List.mem_of_mem_erase hd), h.service⟩, kept_upsert htable⟩
  | upsertError hmem herror =>
    exact ⟨⟨h.table, fun d hd => h.upserts d (List.mem_of_mem_erase hd), h.service⟩, .refl _⟩
  | upsertFails hmem =>
    exact ⟨⟨h.table, fun d hd => h.upserts d (List.mem_of_mem_erase hd), h.service⟩, .refl _⟩
  | @service a service hinner hservice =>
    have hp : ∀ d, a ≠ .panic d := by
      rintro d rfl
      cases hinner
    exact ⟨⟨h.table, h.upserts, h.service_step hservice hp⟩, .refl _⟩
  | markReady hservice htable =>
    exact ⟨⟨h.table.setReady htable, h.upserts, h.service_step hservice (by simp)⟩,
      kept_setReady htable⟩
  | markFails => exact ⟨⟨h.table, h.upserts, h.service⟩, .refl _⟩
  | giveUp hlast hservice =>
    exact ⟨⟨h.table, h.upserts, h.service_step hservice (by simp)⟩, .refl _⟩
  | panic hservice =>
    refine ⟨⟨h.table, h.upserts, .inr ?_⟩, .refl _⟩
    exact h.service.elim (·.panic hservice) (·.step hservice)
  | list => exact ⟨⟨h.table, h.upserts, h.service⟩, .refl _⟩
  | listFails => exact ⟨⟨h.table, h.upserts, h.service⟩, .refl _⟩
  | resume hboot hservice => exact ⟨⟨h.table, h.upserts, h.enqueueDomain hservice⟩, .refl _⟩
  | restart => exact ⟨.fresh h.table, .refl _⟩

/-- The statement of a submission's task leaves the domain a row. -/
theorem Node.Sound.upsert_step (h : s.Sound) {d : Str} {now : Nat}
    (hstep : s.step (.upsert d now) = some s') : s'.table.statusOf d ≠ none := by
  cases Node.steps_of_step hstep with
  | upsert hmem htable =>
    rw [statusOf_upsert (normal_of_isValidDomain (h.upserts _ hmem)) htable]
    simp
  | upsertError hmem herror =>
    exact statusOf_ne_none_of_upsert_error (normal_of_isValidDomain (h.upserts _ hmem)) herror

/-- What a run from a node comes to: it stays sound, and the rows that were there and
those whose statement has run stay in the table. -/
structure Persists (s₀ : Node lower) (tr : List Event) (s : Node lower) : Prop where
  sound : s.Sound
  kept : Kept s₀.table s.table
  upserted : ∀ d now, .upsert d now ∈ tr → s.table.statusOf d ≠ none

theorem inductive_persists {s₀ : Node lower} (h₀ : s₀.Sound) :
    (nodeFrom s₀).Inductive (fun _ => True) (Persists s₀) where
  start := by
    intro s hs
    cases hs
    exact ⟨h₀, .refl _, by simp⟩
  next := by
    intro tr s e s' _ h hstep
    obtain ⟨hsound, hkept⟩ := h.sound.step hstep
    refine ⟨hsound, h.kept.trans hkept, fun d now hmem => ?_⟩
    rcases List.mem_append.mp hmem with hmem | hmem
    · exact hkept.ne_none (h.upserted d now hmem)
    · rw [List.mem_singleton] at hmem
      subst hmem
      exact h.sound.upsert_step hstep

end Gurted.Recovery
