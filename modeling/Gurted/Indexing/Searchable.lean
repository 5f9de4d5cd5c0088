import Gurted.Indexing.Service
import Gurted.Indexing.Shown

/-!
# From submissions to hits

The indexing service drives the engine: the worker runs `process_domain` for its job, whose
calls on the engine are steps among those of the `enqueue` calls, and the reader may reload
between any two of them. `submitted_found` follows a domain from its submission to the
pages of a search.
-/

namespace Gurted.Indexing

open Gurted Gurted.Lib Gurted.Query Gurted.Index Gurted.Crawler

variable {E : Type*} {lower : Str → Str}

/-! ## State and steps -/

structure Indexer (E : Type*) (lower : Str → Str) where
  service : Service
  engine : Engine
  /-- The `process_domain` that runs, with the calls it has still to make on the engine. -/
  running : Option (Job E lower × List Index.Call)

inductive Move (E : Type*) (lower : Str → Str) where
  /-- A step of an `enqueue` call, or of the worker outside of `process_domain`. -/
  | service (a : Action)
  /-- `process_domain` starts, and will meet what the job says. -/
  | start (job : Job E lower)
  /-- It makes its next call on the engine. -/
  | call
  /-- It returns. -/
  | finish (d : Str)
  | panic (d : Str)
  | reload

def Indexer.new : Indexer E lower := ⟨.new, .new, none⟩

/-- The steps of the service that are not an end of `process_domain`. -/
def Outside : Action → Bool
  | .process _ | .panic _ => false
  | _ => true

def Indexer.step (s : Indexer E lower) : Move E lower → Option (Indexer E lower)
  | .service a =>
      if Outside a then (s.service.step a).map fun service => { s with service := service }
      else none
  | .start job =>
      match s.running with
      | some _ => none
      | none =>
          if s.service.worker = .processing job.domain then
            some { s with running := some (job, job.calls) }
          else none
  | .call =>
      match s.running with
      | some (job, c :: left) =>
          some { s with engine := afterCalls s.engine [c], running := some (job, left) }
      | _ => none
  | .finish d =>
      match s.running with
      | some (job, []) =>
          if job.domain = d then
            (s.service.step (.process d)).map fun service =>
              { s with service := service, running := none }
          else none
      | _ => none
  | .panic d =>
      (s.service.step (.panic d)).map fun service => { s with service := service, running := none }
  | .reload => some { s with engine := (Turn.reload : Turn E lower).after s.engine }

/-- The service and its engine, from an empty index. -/
def indexer : Lts (Indexer E lower) (Move E lower) := .ofStep .new Indexer.step

variable {s s' : Indexer E lower} {m : Move E lower}

/-- What a step can do. -/
inductive Indexer.Steps (s : Indexer E lower) : Move E lower → Indexer E lower → Prop
  | service {a : Action} {service : Service} (houtside : Outside a = true)
      (hstep : s.service.step a = some service) :
      Steps s (.service a) { s with service := service }
  | start {job : Job E lower} (hidle : s.running = none)
      (hworker : s.service.worker = .processing job.domain) :
      Steps s (.start job) { s with running := some (job, job.calls) }
  | call {job : Job E lower} {c : Index.Call} {left : List Index.Call}
      (hrunning : s.running = some (job, c :: left)) :
      Steps s .call { s with engine := afterCalls s.engine [c], running := some (job, left) }
  | finish {job : Job E lower} {service : Service} (hrunning : s.running = some (job, []))
      (hstep : s.service.step (.process job.domain) = some service) :
      Steps s (.finish job.domain) { s with service := service, running := none }
  | panic {d : Str} {service : Service} (hstep : s.service.step (.panic d) = some service) :
      Steps s (.panic d) { s with service := service, running := none }
  | reload : Steps s .reload { s with engine := { s.engine with visible := s.engine.committed } }

theorem Indexer.steps_of_step (h : s.step m = some s') : s.Steps m s' := by
  cases m with
  | service a =>
    simp only [Indexer.step, Option.ite_none_right_eq_some, Option.map_eq_some_iff] at h
    obtain ⟨houtside, service, hstep, heq⟩ := h
    cases heq
    exact .service houtside hstep
  | start job =>
    simp only [Indexer.step] at h
    split at h
    · cases h
    · next hidle =>
      rw [Option.ite_none_right_eq_some] at h
      obtain ⟨hworker, heq⟩ := h
      cases heq
      exact .start hidle hworker
  | call =>
    simp only [Indexer.step] at h
    split at h
    · next job c left hrunning =>
      cases h
      exact .call hrunning
    · cases h
  | finish d =>
    simp only [Indexer.step] at h
    split at h
    · next job hrunning =>
      rw [Option.ite_none_right_eq_some, Option.map_eq_some_iff] at h
      obtain ⟨hdomain, service, hstep, heq⟩ := h
      cases heq
      subst hdomain
      exact .finish hrunning hstep
    · cases h
  | panic d =>
    simp only [Indexer.step, Option.map_eq_some_iff] at h
    obtain ⟨service, hstep, heq⟩ := h
    cases heq
    exact .panic hstep
  | reload =>
    cases h
    exact .reload

/-! ## The engine under the calls of a job -/

/-- What a search can find is committed. -/
def Shows (e : Engine) : Prop := ∀ doc ∈ e.visible, doc ∈ e.committed

theorem Shows.call {e : Engine} (h : Shows e) (c : Index.Call) :
    Shows (afterCalls e [c]) ∧ ∀ doc ∈ e.visible, doc ∈ (afterCalls e [c]).visible := by
  cases c with
  | add doc accepted => cases accepted <;> exact ⟨h, fun _ hdoc => hdoc⟩
  | commit succeeds =>
    cases succeeds with
    | true => exact ⟨fun doc hdoc => List.mem_append_left _ (h doc hdoc), fun _ hdoc => hdoc⟩
    | false => exact ⟨h, fun _ hdoc => hdoc⟩
  | refresh succeeds =>
    cases succeeds with
    | true => exact ⟨fun _ hdoc => hdoc, h⟩
    | false => exact ⟨h, fun _ hdoc => hdoc⟩

/-- An engine that shows more does so after some calls. -/
theorem visible_mono {e e' : Engine} (hqueued : e'.queued = e.queued)
    (hcommitted : e'.committed = e.committed) (hvisible : ∀ doc ∈ e.visible, doc ∈ e'.visible)
    (calls : List Index.Call) :
    ∀ doc ∈ (afterCalls e calls).visible, doc ∈ (afterCalls e' calls).visible := by
  induction calls generalizing e e' with
  | nil => exact hvisible
  | cons c calls ih =>
    have hcons : ∀ e : Engine, afterCalls e (c :: calls) = afterCalls (afterCalls e [c]) calls :=
      fun _ => rfl
    obtain ⟨queued, committed, visible⟩ := e
    obtain ⟨queued', committed', visible'⟩ := e'
    cases hqueued
    cases hcommitted
    rw [hcons, hcons]
    cases c with
    | add doc accepted => cases accepted <;> exact ih rfl rfl hvisible
    | commit succeeds => cases succeeds <;> exact ih rfl rfl hvisible
    | refresh succeeds =>
      cases succeeds with
      | true => exact ih rfl rfl fun _ hdoc => hdoc
      | false => exact ih rfl rfl hvisible

/-- A reload before some calls hides nothing after them. -/
theorem Shows.reload {e : Engine} (h : Shows e) (calls : List Index.Call) :
    ∀ doc ∈ (afterCalls e calls).visible,
      doc ∈ (afterCalls { e with visible := e.committed } calls).visible := by
  refine visible_mono ?_ ?_ ?_ calls
  · rfl
  · rfl
  · exact h

/-- After its calls, the pages of a job can be found. -/
theorem taken_visible {job : Job E lower} (hcommit : job.env.commit.isOk = true)
    (hrefresh : job.env.refresh.isOk = true) (e : Engine) :
    ∀ doc ∈ job.taken, doc ∈ (afterCalls e job.calls).visible := by
  intro doc hdoc
  have hafter : afterCalls e job.calls = (Turn.job job).after e := rfl
  rw [hafter, after_job, hcommit, hrefresh]
  exact List.mem_append_right _ (List.mem_append_right _ hdoc)

/-! ## What every run keeps -/

/-- The service is sound, and `process_domain` runs for the job the worker holds. -/
structure Indexer.Sound (s : Indexer E lower) : Prop where
  live : s.service.Live
  nodup : s.service.active.Nodup
  exact : ∀ d, d ∈ s.service.inFlight ↔ d ∈ s.service.active
  running : ∀ job left, s.running = some (job, left) → s.service.worker = .processing job.domain
  shows : Shows s.engine

theorem Indexer.Sound.new : (Indexer.new : Indexer E lower).Sound := by
  have hinv := inductive_inv.start .new rfl
  refine ⟨hinv.live, hinv.nodup, hinv.exact, fun job left hrunning => ?_, fun doc hdoc => ?_⟩
  · cases hrunning
  · cases hdoc

/-- A worker in `process_domain` is there until it has returned. -/
theorem processing_of_step {s s' : Service} {a : Action} {d : Str} (h : s.Live)
    (hworker : s.worker = .processing d) (hstep : s.step a = some s') (hout : Outside a = true) :
    s'.worker = .processing d := by
  cases Service.steps_of_step hstep with
  | inFlight => exact hworker
  | enqueue => exact hworker
  | ensureWorker hcall =>
    have hsender : s.sender = true := h.started.mpr (by rw [hworker]; simp)
    rw [Service.ensureWorker, if_pos hsender]
    exact hworker
  | send => exact hworker
  | sendFails => exact hworker
  | remove => exact hworker
  | recv hidle =>
    rw [hworker] at hidle
    cases hidle
  | process => cases hout
  | workerRemove hprocessed =>
    rw [hworker] at hprocessed
    cases hprocessed
  | panic => cases hout

theorem outside_ne {a : Action} (h : Outside a = true) (d : Str) :
    a ≠ .panic d ∧ a ≠ .process d := by
  constructor
  · intro heq
    rw [heq] at h
    cases h
  · intro heq
    rw [heq] at h
    cases h

theorem Indexer.Sound.step (h : s.Sound) (hp : ∀ d, m ≠ .panic d) (hstep : s.step m = some s') :
    s'.Sound := by
  cases Indexer.steps_of_step hstep with
  | service houtside hservice =>
    obtain ⟨hlive, heffect, -⟩ := h.live.step hservice fun d => (outside_ne houtside d).1
    refine ⟨hlive, heffect.nodup h.exact h.nodup, heffect.exact h.exact h.nodup,
      fun job left hrunning => ?_, h.shows⟩
    exact processing_of_step h.live (h.running job left hrunning) hservice houtside
  | start hidle hworker =>
    refine ⟨h.live, h.nodup, h.exact, fun job left hrunning => ?_, h.shows⟩
    cases hrunning
    exact hworker
  | @call job c left hrunning =>
    refine ⟨h.live, h.nodup, h.exact, fun job' left' hrunning' => ?_, (h.shows.call c).1⟩
    cases hrunning'
    exact h.running job _ hrunning
  | finish hrunning hservice =>
    obtain ⟨hlive, heffect, -⟩ := h.live.step hservice (by simp)
    refine ⟨hlive, heffect.nodup h.exact h.nodup, heffect.exact h.exact h.nodup,
      fun job left hrunning => ?_, h.shows⟩
    cases hrunning
  | @panic d => exact absurd rfl (hp d)
  | reload => exact ⟨h.live, h.nodup, h.exact, h.running, fun _ hdoc => hdoc⟩

/-! ## A submitted domain -/

/-- Where a domain is after its submission, since which the steps of `post` were taken: it
waits for its job; the job runs, and its pages can be found after the calls it has left; or
the pages can be found. -/
inductive Follows (d : Str) (post : List (Move E lower)) (s : Indexer E lower) : Prop
  | waits (hwaits : d ∈ s.service.unprocessed)
      (hother : ∀ job left, s.running = some (job, left) → job.domain ≠ d)
  | runs (job : Job E lower) (left : List Index.Call) (hstart : .start job ∈ post)
      (hdomain : job.domain = d) (hrunning : s.running = some (job, left))
      (hpages : ∀ doc ∈ job.taken, doc ∈ (afterCalls s.engine left).visible)
  | done (job : Job E lower) (hstart : .start job ∈ post) (hdomain : job.domain = d)
      (hpages : ∀ doc ∈ job.taken, doc ∈ s.engine.visible)

/-- Every job that is started for the domain commits and refreshes. -/
def Commits (d : Str) (m : Move E lower) : Prop :=
  ∀ job, m = .start job → job.domain = d → job.env.commit.isOk = true ∧ job.env.refresh.isOk = true

theorem Follows.step {d : Str} {post : List (Move E lower)} (hsound : s.Sound)
    (h : Follows d post s) (hp : ∀ d, m ≠ .panic d) (hok : Commits d m)
    (hstep : s.step m = some s') : Follows d (post ++ [m]) s' := by
  cases Indexer.steps_of_step hstep with
  | service houtside hservice =>
    cases h with
    | waits hwaits hother =>
      obtain ⟨-, -, hprogress⟩ := hsound.live.step hservice fun d => (outside_ne houtside d).1
      exact .waits ((hprogress.kept d hwaits).resolve_right (outside_ne houtside d).2) hother
    | runs job left hstart hdomain hrunning hpages =>
      exact .runs job left (List.mem_append_left _ hstart) hdomain hrunning hpages
    | done job hstart hdomain hpages =>
      exact .done job (List.mem_append_left _ hstart) hdomain hpages
  | @start job hidle hworker =>
    cases h with
    | waits hwaits hother =>
      by_cases hdomain : job.domain = d
      · obtain ⟨hcommit, hrefresh⟩ := hok job rfl hdomain
        exact .runs job job.calls (by simp) hdomain rfl (taken_visible hcommit hrefresh _)
      · refine .waits hwaits fun job' left' hrunning => ?_
        cases hrunning
        exact hdomain
    | runs job' left hstart hdomain hrunning hpages =>
      rw [hidle] at hrunning
      cases hrunning
    | done job' hstart hdomain hpages =>
      exact .done job' (List.mem_append_left _ hstart) hdomain hpages
  | @call job c left hrunning =>
    cases h with
    | waits hwaits hother =>
      refine .waits hwaits fun job' left' hrunning' => ?_
      cases hrunning'
      exact hother job _ hrunning
    | runs job' left' hstart hdomain hrunning' hpages =>
      rw [hrunning] at hrunning'
      cases hrunning'
      exact .runs job left (List.mem_append_left _ hstart) hdomain rfl hpages
    | done job' hstart hdomain hpages =>
      exact .done job' (List.mem_append_left _ hstart) hdomain
        fun doc hdoc => (hsound.shows.call c).2 doc (hpages doc hdoc)
  | @finish job service hrunning hservice =>
    cases h with
    | waits hwaits hother =>
      obtain ⟨-, -, hprogress⟩ := hsound.live.step hservice (by simp)
      refine .waits ((hprogress.kept d hwaits).resolve_right fun heq => ?_) (by simp)
      cases heq
      exact hother job [] hrunning rfl
    | runs job' left' hstart hdomain hrunning' hpages =>
      rw [hrunning] at hrunning'
      cases hrunning'
      exact .done job (List.mem_append_left _ hstart) hdomain hpages
    | done job' hstart hdomain hpages =>
      exact .done job' (List.mem_append_left _ hstart) hdomain hpages
  | @panic d => exact absurd rfl (hp d)
  | reload =>
    cases h with
    | waits hwaits hother => exact .waits hwaits hother
    | runs job left hstart hdomain hrunning hpages =>
      exact .runs job left (List.mem_append_left _ hstart) hdomain hrunning
        fun doc hdoc => hsound.shows.reload left doc (hpages doc hdoc)
    | done job hstart hdomain hpages =>
      exact .done job (List.mem_append_left _ hstart) hdomain
        fun doc hdoc => hsound.shows doc (hpages doc hdoc)

/-- A submission outside of a job for its domain is followed. -/
theorem Follows.enqueue {d : Str} (hsound : s.Sound) (hfree : d ∉ s.service.worker.job)
    (hstep : s.step (.service (.enqueue d)) = some s') : Follows d [] s' := by
  cases Indexer.steps_of_step hstep with
  | service houtside hservice =>
    obtain ⟨-, -, hprogress⟩ := hsound.live.step hservice (by simp)
    refine .waits ?_ fun job left hrunning hdomain => ?_
    · rcases hprogress.enqueued d rfl with hin | hnew
      · -- it is in flight, but not with the worker
        have hactive := (hsound.exact d).mp hin
        have hold : d ∈ s.service.unprocessed := by
          rw [Service.active, List.mem_append, List.mem_append] at hactive
          rw [Service.unprocessed, List.mem_append, List.mem_append]
          rcases hactive with hcall | hqueue | hjob
          · exact .inl hcall
          · exact .inr (.inl hqueue)
          · exact absurd hjob hfree
        exact (hprogress.kept d hold).resolve_right (by simp)
      · exact hnew
    · have hworker := hsound.running job left hrunning
      rw [hdomain] at hworker
      exact hfree (by rw [hworker, Worker.job]; exact List.mem_singleton_self d)

/-- A domain that has left the service can be found. -/
theorem Follows.done_of_notMem {d : Str} {post : List (Move E lower)} (hsound : s.Sound)
    (h : Follows d post s) (hgone : d ∉ s.service.inFlight) :
    ∃ job, .start job ∈ post ∧ job.domain = d ∧ ∀ doc ∈ job.taken, doc ∈ s.engine.visible := by
  cases h with
  | waits hwaits hother =>
    exact absurd ((hsound.exact d).mpr (unprocessed_subset_active _ hwaits)) hgone
  | runs job left hstart hdomain hrunning hpages =>
    have hworker := hsound.running job left hrunning
    have hactive : d ∈ s.service.active := by
      rw [Service.active, hworker, hdomain]
      simp [Worker.job]
    exact absurd ((hsound.exact d).mpr hactive) hgone
  | done job hstart hdomain hpages => exact ⟨job, hstart, hdomain, hpages⟩

/-! ## Runs -/

theorem inductive_sound :
    (indexer : Lts (Indexer E lower) _).Inductive (fun m => ∀ d, m ≠ .panic d)
      fun _ s => s.Sound where
  start := by
    intro s hs
    cases hs
    exact .new
  next := fun _ _ _ _ hp h hstep => h.step hp hstep

theorem inductive_follows {d : Str} {s₀ : Indexer E lower} (hsound : s₀.Sound)
    (hfollows : Follows d [] s₀) :
    (indexer.fromState s₀).Inductive (fun m => (∀ d, m ≠ .panic d) ∧ Commits d m)
      fun post s => s.Sound ∧ Follows d post s where
  start := by
    intro s hs
    cases hs
    exact ⟨hsound, hfollows⟩
  next := fun _ _ _ _ hm h hstep =>
    ⟨h.1.step hm.1 hstep, h.2.step h.1 hm.1 hm.2 hstep⟩

/-- Every member of a list is on one of its pages. -/
theorem exists_page {α : Type*} {l : List α} {x : α} (h : x ∈ l) {size : Nat} (hsize : 0 < size) :
    ∃ page, page * size < l.length ∧ x ∈ (l.drop (page * size)).take size := by
  obtain ⟨i, hi, hget⟩ := List.mem_iff_getElem.mp h
  have hle : i / size * size ≤ i := Nat.div_mul_le_self i size
  have hlt : i < i / size * size + size := Nat.lt_div_mul_add hsize
  refine ⟨i / size, by omega, List.mem_iff_getElem?.mpr ⟨i - i / size * size, ?_⟩⟩
  rw [List.getElem?_take_of_lt (by omega), List.getElem?_drop, Nat.add_sub_cancel' hle,
    List.getElem?_eq_getElem hi, hget]

section Found
variable (U : CharTables) {S : Type*} [LinearOrder S]

/-- A page that is visible is found by a query for one of its terms. -/
theorem found_of_visible (score : List Clause → IndexDocument → S) {e : Engine}
    {doc : IndexDocument} (hdoc : doc ∈ e.visible) (hfits : e.visible.length ≤ 2 ^ 64)
    {query : ParsedQuery}
    (hmatches : (shouldClauses (analyzeTerms U query.terms)).any fun c => c.matches U doc)
    {size : Nat} (hsize : 0 < size) :
    ∃ page, hitOf (score (shouldClauses (analyzeTerms U query.terms)) doc, doc)
      ∈ e.search U score query (page + 1) size := by
  have hrank : hitOf (score (shouldClauses (analyzeTerms U query.terms)) doc, doc)
      ∈ ranking U score query e.visible := by
    rw [ranking]
    refine List.mem_map_of_mem (List.mem_mergeSort.mpr ?_)
    exact List.mem_map.mpr ⟨doc, List.mem_filter.mpr ⟨hdoc, hmatches⟩, rfl⟩
  have hlength : (ranking U score query e.visible).length ≤ e.visible.length := by
    rw [ranking, List.length_map, List.length_mergeSort, List.length_map]
    exact List.length_filter_le ..
  obtain ⟨page, hpage, hmem⟩ := exists_page hrank hsize
  exact ⟨page, by rw [search_eq_ranking U score e query hsize (by omega)]; exact hmem⟩

/-- **A submitted site can be found.** In every run without a panic: if the worker does not
hold a job for a domain when it is submitted, then once the domain has left `in_flight`, a
job for it has started after the submission; and if the jobs started for it since then
commit and refresh, each page that one of them has fetched and the writer has taken is on
some page of every search for one of its terms, whatever the other calls, jobs and reloads
were. -/
theorem submitted_found (score : List Clause → IndexDocument → S)
    {pre post : List (Move E lower)} {d : Str} {s₁ s : Indexer E lower} (h₁ : indexer.Run pre s₁)
    (hfree : d ∉ s₁.service.worker.job)
    (h : (indexer.fromState s₁).Run (.service (.enqueue d) :: post) s)
    (hp : ∀ e, .panic e ∉ pre ++ post)
    (hok : ∀ job, .start job ∈ post → job.domain = d →
      job.env.commit.isOk = true ∧ job.env.refresh.isOk = true)
    (hgone : d ∉ s.service.inFlight) (hfits : s.engine.visible.length ≤ 2 ^ 64) :
    ∃ job, .start job ∈ post ∧ job.domain = d ∧
      ∀ url ∈ collectCandidateUrls job.env.sitemap d, ∀ doc,
        pageOf job.env.toPageEnv url = some doc → job.takes doc = true → ∀ query : ParsedQuery,
        (shouldClauses (analyzeTerms U query.terms)).any (fun c => c.matches U doc) →
        ∀ size, 0 < size → ∃ page,
          hitOf (score (shouldClauses (analyzeTerms U query.terms)) doc, doc)
            ∈ s.engine.search U score query (page + 1) size := by
  have hsound₁ := h₁.invariant inductive_sound fun m hm e heq =>
    hp e (List.mem_append_left _ (heq ▸ hm))
  obtain ⟨s₂, hstep, hpost⟩ := h.uncons
  have hsound₂ : s₂.Sound := hsound₁.step (by simp) hstep
  have hfollows : Follows d [] s₂ := .enqueue hsound₁ hfree hstep
  obtain ⟨hsound, hdone⟩ := hpost.invariant (inductive_follows hsound₂ hfollows)
    fun m hm => ⟨fun e heq => hp e (List.mem_append_right _ (heq ▸ hm)),
      fun job heq hdomain => hok job (heq ▸ hm) hdomain⟩
  obtain ⟨job, hstart, hdomain, hpages⟩ := hdone.done_of_notMem hsound hgone
  refine ⟨job, hstart, hdomain, fun url hurl doc hpage htakes query hmatches size hsize => ?_⟩
  rw [← hdomain] at hurl
  have htaken : doc ∈ job.taken :=
    List.mem_filter.mpr ⟨List.mem_filterMap.mpr ⟨url, hurl, hpage⟩, htakes⟩
  exact found_of_visible U score (hpages doc htaken) hfits hmatches hsize

end Found

/-- The job with its page about rust, when the refresh succeeds. -/
def shownJob : Job Unit Str.toAsciiLowercase :=
  { rustJob with env := { rustJob.env with refresh := .ok () } }

/-- Its page. -/
def rustPage : IndexDocument :=
  pageDocument shownJob.env.toPageEnv "gurt://a.b/".toList "a.b".toList
    ⟨200, [], utf8 "<title>Rust</title>".toList⟩

theorem shownJob_calls : shownJob.calls = [.add rustPage true, .commit true, .refresh true] := by
  rw [calls_eq]
  rfl

/-- It is submitted, sent, crawled and shown. -/
def shownRun : List (Move Unit Str.toAsciiLowercase) :=
  [.service (.enqueue "a.b".toList), .service (.ensureWorker 0), .service (.send 0), .service .recv,
    .start shownJob, .call, .call, .call, .finish "a.b".toList,
    .service (.workerRemove "a.b".toList)]

theorem shownRun_run : shownRun.foldlM Indexer.step .new
    = some ⟨⟨true, ∅, [], [], .idle, 1⟩, ⟨[], [rustPage], [rustPage]⟩, none⟩ := by
  have hcrawl : Indexer.step
      ⟨⟨true, {"a.b".toList}, [], [], .processing "a.b".toList, 1⟩, .new, none⟩ (.start shownJob)
      = some ⟨⟨true, {"a.b".toList}, [], [], .processing "a.b".toList, 1⟩, .new,
          some (shownJob, [.add rustPage true, .commit true, .refresh true])⟩ := by
    rw [← shownJob_calls]
    rfl
  refine Lts.foldlM_of_step rfl <| Lts.foldlM_of_step rfl <| Lts.foldlM_of_step rfl <|
    Lts.foldlM_of_step rfl <| Lts.foldlM_of_step hcrawl <| Lts.foldlM_of_step rfl <|
    Lts.foldlM_of_step rfl <| Lts.foldlM_of_step rfl <| Lts.foldlM_of_step rfl <|
    Lts.foldlM_of_step rfl List.foldlM_nil

theorem submitted_found_rust :
    ∃ job, .start job ∈ shownRun.tail ∧ job.domain = "a.b".toList ∧
      ∀ url ∈ collectCandidateUrls job.env.sitemap "a.b".toList, ∀ doc,
        pageOf job.env.toPageEnv url = some doc → job.takes doc = true → ∀ query : ParsedQuery,
        (shouldClauses (analyzeTerms .latin1 query.terms)).any (fun c => c.matches .latin1 doc) →
        ∀ size, 0 < size → ∃ page, hitOf (0, doc)
          ∈ (⟨[], [rustPage], [rustPage]⟩ : Engine).search .latin1 (fun _ _ => 0) query (page + 1)
              size :=
  have hrun : (indexer.fromState .new).Run shownRun
      ⟨⟨true, ∅, [], [], .idle, 1⟩, ⟨[], [rustPage], [rustPage]⟩, none⟩ :=
    Lts.run_of_foldlM shownRun_run
  submitted_found .latin1 (fun _ _ => 0) (.start rfl) (by decide) hrun (by simp)
    (fun job hjob _ => by
      have : job = shownJob := by simpa [shownRun] using hjob
      rw [this]
      exact ⟨rfl, rfl⟩)
    (by decide) (by decide)

end Gurted.Indexing
