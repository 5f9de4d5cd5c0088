import Gurted.Recovery.Invariant

/-!
# Resuming after a restart

What `bootstrap_resume` has listed is with it, with the service, or settled
(`Resuming`): ready, or missed by the worker. So when it has enqueued its last domain and the
service is drained, every listed domain is settled, however often the process before it had
crashed; and so is every domain with a row, if the listing is large enough. This takes that
from the listing on the worker does not panic.
-/

namespace Gurted.Recovery

open Gurted Gurted.Lib Gurted.Storage Gurted.Indexing Gurted.Router

variable {lower : Str → Str} {s s' : Node lower} {e : Event}

/-- The process goes on, and its worker does not panic. -/
def Event.GoesOn : Event → Prop
  | .restart => False
  | .panic _ => False
  | _ => True

/-- The worker has given up marking the domain, or was about to remove it from `in_flight` at
the listing, where `enqueue_domain` can skip it. -/
def Missed (after : List Event) (s₀ : Node lower) (d : Str) : Prop :=
  .giveUp d ∈ after ∨ s₀.service.worker = .processed d

/-- The domain is ready, or was missed. -/
def Settled (missed : Str → Prop) (t : DomainsTable lower) (d : Str) : Prop :=
  t.statusOf d = some .ready ∨ missed d

theorem Settled.kept {missed : Str → Prop} {t t' : DomainsTable lower} {d : Str}
    (h : Settled missed t d) (hkept : Kept t t') : Settled missed t' d := h.imp_left hkept.ready

/-- Every domain that was listed is still to be enqueued, is a job that has still to
run, or is settled. -/
structure Resuming (listed : List Str) (missed : Str → Prop) (s : Node lower) : Prop where
  sound : s.Sound
  service : Agrees s.service
  normal : ∀ d ∈ listed, Normal d
  present : ∀ d ∈ listed, s.table.statusOf d ≠ none
  processed : ∀ d ∈ listed, s.service.worker = .processed d → Settled missed s.table d
  covered : ∃ left, s.boot = some left ∧ ∀ d ∈ listed,
    d ∈ left ∨ d ∈ s.service.unprocessed ∨ Settled missed s.table d

theorem Resuming.mono {listed : List Str} {missed missed' : Str → Prop}
    (h : Resuming listed missed s) (hmore : ∀ d, missed d → missed' d) :
    Resuming listed missed' s := by
  obtain ⟨left, hleft, hcovered⟩ := h.covered
  exact ⟨h.sound, h.service, h.normal, h.present,
    fun d hd hw => (h.processed d hd hw).imp_right (hmore d), left, hleft,
    fun d hd => (hcovered d hd).imp_right (Or.imp_right (Or.imp_right (hmore d)))⟩

/-- A job that is in flight has still to run, or the worker is about to remove it. -/
theorem Agrees.inFlight {s : Service} (h : Agrees s) {d : Str} (hd : d ∈ s.inFlight) :
    d ∈ s.unprocessed ∨ s.worker = .processed d := by
  have hactive := (h.exact d).mp hd
  simp only [Service.active, Service.unprocessed, List.mem_append] at hactive ⊢
  rcases hactive with hcall | hqueued | hjob
  · exact .inl (.inl hcall)
  · exact .inl (.inr (.inl hqueued))
  · rcases Worker.mem_job.mp hjob with hw | hw
    · refine .inl (.inr (.inr ?_))
      rw [hw]
      exact List.mem_singleton_self d
    · exact .inr hw

/-- Of the steps of the service only the end of a job makes one `processed`. -/
theorem processed_of_step {s s' : Service} {a : Action} (hstep : s.step a = some s') {d : Str}
    (h : s'.worker = .processed d) : s.worker = .processed d ∨ a = .process d := by
  cases Service.steps_of_step hstep with
  | inFlight => exact .inl h
  | enqueue => exact .inl h
  | ensureWorker hcall =>
    have hsame : s.ensureWorker.worker = .processed d → s.worker = .processed d := by
      rw [Service.ensureWorker]
      split
      · exact id
      · intro hidle
        cases hidle
    exact .inl (hsame h)
  | send => exact .inl h
  | sendFails => exact .inl h
  | remove => exact .inl h
  | recv => cases h
  | process hw =>
    cases h
    exact .inr rfl
  | workerRemove => cases h
  | panic => cases h

section Steps
variable {listed : List Str} {missed : Str → Prop} (h : Resuming listed missed s)
include h

/-- A step that leaves the service and the list alone. -/
theorem Resuming.frame (hsound : s'.Sound) (hkept : Kept s.table s'.table)
    (hservice : s'.service = s.service) (hboot : s'.boot = s.boot) : Resuming listed missed s' := by
  obtain ⟨left, hleft, hcovered⟩ := h.covered
  refine ⟨hsound, by rw [hservice]; exact h.service, h.normal,
    fun d hd => hkept.ne_none (h.present d hd), fun d hd hw => ?_, left, by rw [hboot, hleft],
    fun d hd => ?_⟩
  · rw [hservice] at hw
    exact (h.processed d hd hw).kept hkept
  · rw [hservice]
    rcases hcovered d hd with hin | hin | hsettled
    · exact .inl hin
    · exact .inr (.inl hin)
    · exact .inr (.inr (hsettled.kept hkept))

/-- A step of the service that neither runs a job nor panics. -/
theorem Resuming.serviceStep {a : Action} {service : Service}
    (hstep : s.service.step a = some service) (hp : ∀ d, a ≠ .panic d ∧ a ≠ .process d)
    (hsound : s'.Sound) (htable : s'.table = s.table) (hservice : s'.service = service)
    (hboot : s'.boot = s.boot) : Resuming listed missed s' := by
  obtain ⟨left, hleft, hcovered⟩ := h.covered
  obtain ⟨-, -, hprogress⟩ := h.service.live.step hstep fun d => (hp d).1
  refine ⟨hsound, by rw [hservice]; exact h.service.step hstep fun d => (hp d).1, h.normal,
    fun d hd => by rw [htable]; exact h.present d hd, fun d hd hw => ?_, left,
    by rw [hboot, hleft], fun d hd => ?_⟩
  · rw [hservice] at hw
    rw [htable]
    exact h.processed d hd ((processed_of_step hstep hw).resolve_right (hp d).2)
  · rw [hservice, htable]
    rcases hcovered d hd with hin | hin | hsettled
    · exact .inl hin
    · exact .inr (.inl ((hprogress.kept d hin).resolve_right (hp d).2))
    · exact .inr (.inr hsettled)

/-- An `enqueue_domain` of a handler. -/
theorem Resuming.enqueue {d : Str} {service : Service}
    (hstep : enqueueDomain s.service d = some service) (hsound : s'.Sound)
    (htable : s'.table = s.table) (hservice : s'.service = service) (hboot : s'.boot = s.boot) :
    Resuming listed missed s' := by
  rcases enqueueDomain_cases hstep with ⟨-, rfl⟩ | hstep
  · exact h.frame hsound (by rw [htable]; exact .refl _) hservice hboot
  · exact h.serviceStep hstep (by simp) hsound htable hservice hboot

/-- The domain that the resumption enqueues is in flight with a job that has still to run,
was marked since it was listed, or becomes such a job. -/
theorem Resuming.resume {d : Str} {left : List Str} {service : Service}
    (hleft : s.boot = some (d :: left)) (hstep : enqueueDomain s.service d = some service)
    (hsound : s'.Sound) (htable : s'.table = s.table) (hservice : s'.service = service)
    (hboot : s'.boot = some left) : Resuming listed missed s' := by
  obtain ⟨left', hleft', hcovered⟩ := h.covered
  rw [hleft, Option.some_inj] at hleft'
  subst hleft'
  rcases enqueueDomain_cases hstep with ⟨rfl, rfl⟩ | hstep'
  · refine ⟨hsound, by rw [hservice]; exact h.service, h.normal,
      fun e he => by rw [htable]; exact h.present e he, fun e he hw => ?_, left, hboot,
      fun e he => ?_⟩
    · rw [hservice] at hw
      rw [htable]
      exact h.processed e he hw
    · rw [hservice, htable]
      rcases hcovered e he with hin | hrest
      · refine .inl ((List.mem_cons.mp hin).resolve_left ?_)
        exact (h.normal e he).ne_nil
      · exact .inr hrest
  · obtain ⟨-, -, hprogress⟩ := h.service.live.step hstep' (by simp)
    refine ⟨hsound, by rw [hservice]; exact h.service.step hstep' (by simp), h.normal,
      fun e he => by rw [htable]; exact h.present e he, fun e he hw => ?_, left, hboot,
      fun e he => ?_⟩
    · rw [hservice] at hw
      rw [htable]
      exact h.processed e he ((processed_of_step hstep' hw).resolve_right (by simp))
    · rw [hservice, htable]
      rcases hcovered e he with hin | hin | hsettled
      · rcases List.mem_cons.mp hin with rfl | hin
        · rcases hprogress.enqueued e rfl with hflight | hun
          · rcases h.service.inFlight hflight with hun | hw
            · exact .inr (.inl ((hprogress.kept e hun).resolve_right (by simp)))
            · exact .inr (.inr (h.processed e he hw))
          · exact .inr (.inl hun)
        · exact .inl hin
      · exact .inr (.inl ((hprogress.kept e hin).resolve_right (by simp)))
      · exact .inr (.inr hsettled)

/-- The domain whose job ends is settled. -/
theorem Resuming.endJob {d : Str} {service : Service}
    (hstep : s.service.step (.process d) = some service)
    (hsettled : d ∈ listed → Settled missed s'.table d) (hsound : s'.Sound)
    (hkept : Kept s.table s'.table) (hservice : s'.service = service) (hboot : s'.boot = s.boot) :
    Resuming listed missed s' := by
  obtain ⟨left, hleft, hcovered⟩ := h.covered
  obtain ⟨-, -, hprogress⟩ := h.service.live.step hstep (by simp)
  refine ⟨hsound, by rw [hservice]; exact h.service.step hstep (by simp), h.normal,
    fun e he => hkept.ne_none (h.present e he), fun e he hw => ?_, left, by rw [hboot, hleft],
    fun e he => ?_⟩
  · rw [hservice] at hw
    rcases processed_of_step hstep hw with hw | heq
    · exact (h.processed e he hw).kept hkept
    · cases heq
      exact hsettled he
  · rw [hservice]
    rcases hcovered e he with hin | hin | hold
    · exact .inl hin
    · rcases hprogress.kept e hin with hin | heq
      · exact .inr (.inl hin)
      · cases heq
        exact .inr (.inr (hsettled he))
    · exact .inr (.inr (hold.kept hkept))

/-- The mark of a listed domain. -/
theorem Resuming.marked {d : Str} {table : DomainsTable lower}
    (hset : setDomainStatus s.table d "ready".toList = .ok table) (hd : d ∈ listed) :
    table.statusOf d = some .ready := by
  have hready : DomainStatus.ofText "ready".toList = some .ready := by decide
  rw [statusOf_setDomainStatus (h.normal d hd) hready hset]
  obtain ⟨st, hst⟩ := Option.ne_none_iff_exists'.mp (h.present d hd)
  rw [hst]
  rfl

/-- **Every step** of a process that goes on. -/
theorem Resuming.step (hgoes : e.GoesOn) (hmissed : ∀ d, e = .giveUp d → missed d)
    (hstep : s.step e = some s') : Resuming listed missed s' := by
  obtain ⟨hsound, hkept⟩ := h.sound.step hstep
  cases Node.steps_of_step hstep with
  | submit => exact h.frame hsound hkept rfl rfl
  | enqueue hmem hservice => exact h.enqueue hservice hsound rfl rfl rfl
  | upsert => exact h.frame hsound hkept rfl rfl
  | upsertError => exact h.frame hsound hkept rfl rfl
  | upsertFails => exact h.frame hsound hkept rfl rfl
  | @service a service hinner hservice =>
    have hp : ∀ d, a ≠ .panic d ∧ a ≠ .process d := by
      intro d
      constructor
      · rintro rfl
        cases hinner
      · rintro rfl
        cases hinner
    exact h.serviceStep hservice hp hsound rfl rfl rfl
  | markReady hservice htable =>
    exact h.endJob hservice (fun hd => .inl (h.marked htable hd)) hsound hkept rfl rfl
  | markFails => exact h.frame hsound hkept rfl rfl
  | @giveUp d service hlast hservice =>
    exact h.endJob hservice (fun _ => .inr (hmissed d rfl)) hsound hkept rfl rfl
  | panic => cases hgoes
  | list hboot =>
    obtain ⟨left, hleft, -⟩ := h.covered
    rw [hboot] at hleft
    cases hleft
  | listFails hboot =>
    obtain ⟨left, hleft, -⟩ := h.covered
    rw [hboot] at hleft
    cases hleft
  | resume hboot hservice => exact h.resume hboot hservice hsound rfl rfl rfl
  | restart => cases hgoes

end Steps

/-! ## From the listing on -/

/-- The listing comes to every pending domain. -/
structure BootstrapEnv.Covers (env : BootstrapEnv) (t : DomainsTable lower) : Prop where
  enabled : envFlagTrue env.enabled true = true
  limit : t.pending.length ≤ asI64 (envUsize env.limit 200)
  cap : t.pending.length ≤ 10000

theorem Resuming.list (hsound : s.Sound) (halive : s.service.worker ≠ .dead) {env : BootstrapEnv}
    (hstep : s.step (.list env) = some s') :
    Resuming (env.domains s.table) (Missed [] s) s' := by
  obtain ⟨hsound', -⟩ := hsound.step hstep
  cases Node.steps_of_step hstep with
  | list hboot =>
    have hrow : ∀ d ∈ env.domains s.table,
        ∃ r ∈ s.table.rows, r.name = d ∧ r.status = .pending := by
      intro d hd
      rw [BootstrapEnv.domains] at hd
      split at hd
      · obtain ⟨r, hr, hname⟩ := List.mem_map.mp hd
        have hpending := List.mem_filter.mp (List.mem_mergeSort.mp (List.mem_of_mem_take hr))
        exact ⟨r, hpending.1, hname, by simpa using hpending.2⟩
      · cases hd
    have hpending : ∀ d ∈ env.domains s.table, s.table.statusOf d = some .pending := by
      intro d hd
      obtain ⟨r, hr, rfl, hpending⟩ := hrow d hd
      have hof : r ∈ s.table.rowsOf r.name := List.mem_filter.mpr ⟨hr, by simp⟩
      obtain ⟨r', rest, hrows⟩ := List.exists_cons_of_ne_nil (List.ne_nil_of_mem hof)
      have hlen := s.table.rowsOf_length r.name
      rw [hrows, List.length_cons] at hlen
      have hrest : rest = [] := List.length_eq_zero_iff.mp (by omega)
      rw [hrows, hrest, List.mem_singleton] at hof
      rw [DomainsTable.statusOf_eq_some_iff]
      exact ⟨r', by rw [hrows, hrest], by rw [← hof, hpending]⟩
    refine ⟨hsound', ?_, fun d hd => ?_, fun d hd => ?_, fun d hd hw => ?_, _, rfl,
      fun d hd => .inl hd⟩
    · exact hsound.service.resolve_right fun hcrashed => halive hcrashed.1
    · obtain ⟨r, hr, rfl, -⟩ := hrow d hd
      exact (hsound.table r hr).1
    · rw [hpending d hd]
      simp
    · exact .inr (.inr hw)

theorem inductive_resuming {listed : List Str} {s₀ : Node lower}
    (h : Resuming listed (Missed [] s₀) s) :
    (nodeFrom s).Inductive Event.GoesOn fun tr s' => Resuming listed (Missed tr s₀) s' where
  start := by
    intro s' hs
    cases hs
    exact h
  next := by
    intro tr s' e s'' hgoes h hstep
    have hmore : ∀ d, Missed tr s₀ d → Missed (tr ++ [e]) s₀ d :=
      fun d => Or.imp_left (List.mem_append_left _)
    refine (h.mono hmore).step hgoes (fun d hd => .inl ?_) hstep
    rw [hd]
    exact List.mem_append_right _ (List.mem_singleton_self _)

/-- The resumption has enqueued all it has listed, and the service has worked it off. -/
structure Node.Resumed (s : Node lower) : Prop where
  boot : s.boot = some []
  drained : s.service.Drained

theorem Resuming.settled {listed : List Str} {missed : Str → Prop} (h : Resuming listed missed s)
    (hs : s.Resumed) {d : Str} (hd : d ∈ listed) : Settled missed s.table d := by
  obtain ⟨left, hleft, hcovered⟩ := h.covered
  rw [hs.boot, Option.some_inj] at hleft
  rcases hcovered d hd with hin | hin | hsettled
  · rw [← hleft] at hin
    cases hin
  · have hactive := unprocessed_subset_active s.service hin
    rw [Service.active, hs.drained.calls, hs.drained.queue, hs.drained.worker] at hactive
    cases hactive
  · exact hsettled

/-- The listing of a process whose worker lives, after any run, and a run that goes on from
there. -/
structure Resumption (t₀ : DomainsTable lower) (before : List Event) (env : BootstrapEnv)
    (after : List Event) (s₀ s : Node lower) : Prop where
  reached : (node t₀).Run before s₀
  alive : s₀.service.worker ≠ .dead
  lists : ∃ s₁, s₀.step (.list env) = some s₁ ∧ (nodeFrom s₁).Run after s
  goesOn : ∀ e ∈ after, e.GoesOn

/-- What a resumption comes to: every domain that was listed is ready or missed; and if the
listing has come to every pending domain, the same holds of every domain that had a row at first
or whose row was written before the listing. -/
structure WorkedOff (t₀ : DomainsTable lower) (before : List Event) (env : BootstrapEnv)
    (after : List Event) (s₀ s : Node lower) : Prop where
  listed : ∀ d ∈ env.domains s₀.table, s.table.statusOf d = some .ready ∨ Missed after s₀ d
  covered : env.Covers s₀.table → ∀ d, (t₀.statusOf d ≠ none ∨ ∃ now, .upsert d now ∈ before) →
    s.table.statusOf d = some .ready ∨ ∃ name, lower name = lower d ∧ Missed after s₀ name

section Resumption
variable {t₀ : DomainsTable lower} {before after : List Event} {env : BootstrapEnv}
  {s₀ : Node lower} (h : Resumption t₀ before env after s₀ s) (ht₀ : Clean t₀)
include h ht₀

theorem Resumption.persists : Persists (.fresh t₀) before s₀ :=
  h.reached.invariant (inductive_persists (.fresh ht₀)) fun _ _ => trivial

theorem Resumption.resuming : Resuming (env.domains s₀.table) (Missed after s₀) s := by
  obtain ⟨s₁, hlist, hafter⟩ := h.lists
  exact hafter.invariant
    (inductive_resuming (.list (h.persists ht₀).sound h.alive hlist)) h.goesOn

theorem Resumption.kept : Kept s₀.table s.table := by
  obtain ⟨s₁, hlist, hafter⟩ := h.lists
  obtain ⟨hsound₁, hkept₁⟩ := (h.persists ht₀).sound.step hlist
  exact hkept₁.trans (hafter.invariant (inductive_persists hsound₁) fun _ _ => trivial).kept

/-- A domain that had a row is settled when a large enough listing has been worked off. -/
theorem Resumption.row_settled (hs : s.Resumed) (hcovers : env.Covers s₀.table) {d : Str}
    (hd : t₀.statusOf d ≠ none ∨ ∃ now, .upsert d now ∈ before) :
    s.table.statusOf d = some .ready ∨ ∃ name, lower name = lower d ∧ Missed after s₀ name := by
  have hpersists := h.persists ht₀
  have hrow : s₀.table.statusOf d ≠ none := by
    rcases hd with hd | ⟨now, hmem⟩
    · exact hpersists.kept.ne_none hd
    · exact hpersists.upserted d now hmem
  rcases hpersists.sound.table.statusOf hrow with hpending | hready
  · obtain ⟨r, hr, hname, hmem⟩ := exists_mem_listPendingDomains hpending hcovers.limit hcovers.cap
    have hlisted : r.name ∈ env.domains s₀.table := by
      rw [BootstrapEnv.domains, if_pos hcovers.enabled]
      exact hmem
    rw [← DomainsTable.statusOf_congr hname]
    have hsettled := (h.resuming ht₀).settled hs hlisted
    exact hsettled.imp_right fun hmissed => ⟨r.name, hname, hmissed⟩
  · exact .inl ((h.kept ht₀).ready hready)

/-- **No accepted domain is lost.** For every table of rows as the server writes them and every
run of a server, through any number of restarts, panics and failed statements: once a
resumption by a live worker has been worked off, every domain it has listed is ready or was
missed, and so is, if it has listed all pending domains, every domain that had a row at first
or whose row was written before. -/
theorem resumption_ready (hs : s.Resumed) : WorkedOff t₀ before env after s₀ s where
  listed _ hd := (h.resuming ht₀).settled hs hd
  covered hcovers _ hd := h.row_settled ht₀ hs hcovers hd

end Resumption

/-! ## A crash -/

/-- A submission whose row is written and whose job panics. -/
def crash : List Event :=
  [.submit "a.b".toList, .enqueue "a.b".toList, .upsert "a.b".toList 0, .service (.ensureWorker 0),
    .service (.send 0), .service .recv, .panic "a.b".toList, .restart]

/-- What the next process does; the database fails it once. -/
def resumption : List Event :=
  [.resume, .service (.ensureWorker 0), .service (.send 0), .service .recv,
    .markFails "a.b".toList, .markReady "a.b".toList, .service (.workerRemove "a.b".toList)]

/-- The table with the domain. -/
def savedTable (status : DomainStatus) : DomainsTable Str.toAsciiLowercase :=
  ⟨[⟨1, "a.b".toList, some "api".toList, 0, status⟩], 2, List.nodup_singleton _⟩

/-- The end of the resumption. -/
def resumedNode : Node Str.toAsciiLowercase :=
  ⟨savedTable .ready, [], [], ⟨true, ∅, [], [], .idle, 1⟩, 0, some []⟩

theorem crash_resumption : Resumption emptyTable crash ⟨none, none⟩ resumption
    (.fresh (savedTable .pending)) resumedNode := by
  have hlisted : BootstrapEnv.domains ⟨none, none⟩ (savedTable .pending) = ["a.b".toList] := by
    have hsorted : ((savedTable .pending).rows.filter (·.status == .pending)).mergeSort
        (fun r s => r.submittedAt ≤ s.submittedAt) = (savedTable .pending).rows :=
      List.mergeSort_singleton _
    have henabled : envFlagTrue none true = true := rfl
    rw [BootstrapEnv.domains, if_pos henabled, listPendingDomains, hsorted]
    rfl
  refine ⟨Lts.run_of_foldlM rfl, by decide, ?_, ?_⟩
  · refine ⟨⟨savedTable .pending, [], [], .new, 0, some ["a.b".toList]⟩, ?_, Lts.run_of_foldlM rfl⟩
    rw [← hlisted]
    rfl
  · intro e he
    simp only [resumption, List.mem_cons, List.not_mem_nil, or_false] at he
    rcases he with rfl | rfl | rfl | rfl | rfl | rfl | rfl <;> trivial

/-- The default limit covers the table that the crash has left. -/
theorem resumption_ready_crash :
    WorkedOff emptyTable crash ⟨none, none⟩ resumption (.fresh (savedTable .pending)) resumedNode ∧
      BootstrapEnv.Covers ⟨none, none⟩ (savedTable .pending) :=
  ⟨resumption_ready crash_resumption (by simp [Clean, emptyTable]) ⟨rfl, rfl, rfl, rfl⟩,
    rfl, by decide, by decide⟩

end Gurted.Recovery
