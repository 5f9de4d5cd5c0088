import Gurted.Lib.Dated
import Gurted.Router.Rescore
import Gurted.Router.Search

/-!
# Searches beside each other (`handle_search` of `gurtd/src/router/api.rs`)

Any number of requests run beside each other and beside changes of the index. Each takes
the lock of the cache for its look-up and again for its insertion, so between the two an
index can change and other requests can insert. `answers_recent` says how old an answer
can be.
-/

namespace Gurted.Router

open Gurted Gurted.Lib Gurted.Api Gurted.Query Gurted.Index Gurted.Search

/-! ## State and steps -/

/-- What a search depends on besides its query and the system clock. -/
structure SearchSite (K : Type*) [Zero K] [Preorder K] where
  overloaded : Bool
  force500 : Bool
  tables : CharTables
  engine : Engine
  score : List Clause → IndexDocument → K
  rescoring : RescoreEnv K

/-- The step a request does next: its look-up, its search, or its insertion. -/
inductive SearchPhase (S : Type*) where
  | get
  | search
  | put (resp : SearchResponse S)

structure SearchCall (S : Type*) where
  query : ParsedQuery
  phase : SearchPhase S

variable {K : Type*} [Field K] [LinearOrder K]

/-- The site at a time of the system clock, with `rescore_and_convert` then. -/
def SearchSite.env (site : SearchSite K) (clock : Int) : SearchEnv K where
  overloaded := site.overloaded
  force500 := site.force500
  tables := site.tables
  engine := site.engine
  score := site.score
  rescore hits k := (rescoreAndConvert { site.rescoring with now := clock } hits k).getD []

structure SearchNode (K : Type*) [Zero K] [Preorder K] where
  /-- The clock of the cache, which does not go back. -/
  now : Nat
  /-- The system clock, in seconds since the epoch. -/
  clock : Int
  site : SearchSite K
  cache : HotQueryCache K
  calls : List (SearchCall K)

def SearchNode.env (s : SearchNode K) : SearchEnv K := s.site.env s.clock

inductive SearchEvent (K : Type*) [Zero K] [Preorder K] where
  | tick (n : Nat)
  /-- The system clock goes on, or is set. -/
  | setClock (clock : Int)
  /-- A job or a reload, another flag, or other link authorities. -/
  | change (site : SearchSite K)
  | request (req : Request)
  | get (i : Nat)
  | search (i : Nat)
  | put (i : Nat)

/-- `handle_search` does not refuse the request. -/
def admits (env : SearchEnv K) (req : Request) : Bool :=
  !(Str.trim (searchParam req)).isEmpty && !env.overloaded && !env.force500

def SearchNode.step (s : SearchNode K) : SearchEvent K → Option (SearchNode K)
  | .tick n => some { s with now := s.now + n }
  | .setClock clock => some { s with clock := clock }
  | .change site => some { s with site := site }
  | .request req =>
      if admits s.env req then
        some { s with calls := ⟨parseQuery (searchParam req), .get⟩ :: s.calls }
      else some s
  | .get i =>
      match s.calls[i]? with
      | some ⟨pq, .get⟩ =>
          match s.cache.get (normalizeKey pq) s.now with
          | (some _, cache) => some { s with cache := cache, calls := s.calls.eraseIdx i }
          | (none, cache) => some { s with cache := cache, calls := s.calls.set i ⟨pq, .search⟩ }
      | _ => none
  | .search i =>
      match s.calls[i]? with
      | some ⟨pq, .search⟩ => some { s with calls := s.calls.set i ⟨pq, .put (fresh s.env pq)⟩ }
      | _ => none
  | .put i =>
      match s.calls[i]? with
      | some ⟨pq, .put resp⟩ =>
          some { s with cache := s.cache.put (normalizeKey pq) resp s.now,
                        calls := s.calls.eraseIdx i }
      | _ => none

/-- The requests to a server that starts with an empty cache. -/
def searches (ttl : Nat) : Lts (SearchNode K) (SearchEvent K) where
  init s := s.cache = .new ttl ∧ s.calls = []
  step s e s' := s.step e = some s'

/-- The steps by which a request for a query is answered. -/
inductive Answers (s : SearchNode K) : SearchEvent K → ParsedQuery → SearchResponse K → Prop
  | hit {i : Nat} {pq : ParsedQuery} {resp : SearchResponse K}
      (hcall : s.calls[i]? = some ⟨pq, .get⟩)
      (hget : (s.cache.get (normalizeKey pq) s.now).1 = some resp) : Answers s (.get i) pq resp
  | miss {i : Nat} {pq : ParsedQuery} {resp : SearchResponse K}
      (hcall : s.calls[i]? = some ⟨pq, .put resp⟩) : Answers s (.put i) pq resp

/-- **The handler.** A request whose steps no other comes between is answered as
`handle_search` answers it. -/
theorem handleSearch_steps (s : SearchNode K) (v : Visit) (hget : v.getAt = s.now)
    (hput : v.getAt ≤ v.putAt) (hans : v.answers s.env = true) :
    ∃ (es : List (SearchEvent K)) (s₁ : SearchNode K) (e : SearchEvent K)
      (resp : SearchResponse K) (s₂ : SearchNode K),
      es.foldlM SearchNode.step s = some s₁ ∧ Answers s₁ e v.query resp ∧ s₁.step e = some s₂ ∧
      handleSearch s.env s.cache v = (.answered resp, s₂.cache) ∧ s₂.calls = s.calls := by
  have hadmits : admits s.env v.req = true := hans
  have hrequest :
      s.step (.request v.req) = some { s with calls := ⟨v.query, .get⟩ :: s.calls } := by
    rw [SearchNode.step, hadmits]
    rfl
  rw [handleSearch_answered hans, hget]
  rcases s.cache.get_cases v.key s.now with ⟨entry, -, -, hsome⟩ | ⟨cache, hnone, -, -⟩
  · have hkey : s.cache.get (normalizeKey v.query) s.now = (some entry.response, s.cache) := hsome
    refine ⟨[.request v.req], { s with calls := ⟨v.query, .get⟩ :: s.calls }, .get 0,
      entry.response, s, ?_, .hit rfl (by rw [hkey]), ?_, ?_, rfl⟩
    · exact Lts.foldlM_of_step hrequest List.foldlM_nil
    · simp [SearchNode.step, hkey]
    · rw [hsome]
  · -- the search and the insertion follow, with the time between them
    have hmiss : SearchNode.step { s with calls := ⟨v.query, .get⟩ :: s.calls } (.get 0)
        = some { s with cache := cache, calls := ⟨v.query, .search⟩ :: s.calls } := by
      have hkey : s.cache.get (normalizeKey v.query) s.now = (none, cache) := hnone
      simp [SearchNode.step, hkey]
    have htick : SearchNode.step
        ⟨s.now, s.clock, s.site, cache, ⟨v.query, .put (fresh s.env v.query)⟩ :: s.calls⟩
        (.tick (v.putAt - v.getAt)) = some ⟨v.putAt, s.clock, s.site, cache,
          ⟨v.query, .put (fresh s.env v.query)⟩ :: s.calls⟩ := by
      have hnow : s.now + (v.putAt - v.getAt) = v.putAt := by omega
      simp only [SearchNode.step, hnow]
    refine ⟨[.request v.req, .get 0, .search 0, .tick (v.putAt - v.getAt)],
      ⟨v.putAt, s.clock, s.site, cache, ⟨v.query, .put (fresh s.env v.query)⟩ :: s.calls⟩, .put 0,
      fresh s.env v.query,
      ⟨v.putAt, s.clock, s.site, cache.put v.key (fresh s.env v.query) v.putAt, s.calls⟩,
      ?_, .miss rfl, rfl, ?_, rfl⟩
    · exact Lts.foldlM_of_step hrequest <| Lts.foldlM_of_step hmiss <| Lts.foldlM_of_step rfl <|
        Lts.foldlM_of_step htick List.foldlM_nil
    · rw [hnone]

/-! ## What a step does -/

variable {s s' : SearchNode K} {e : SearchEvent K} {ttl : Nat}

/-- A call with the key is about to insert the response, and to answer with it. -/
def SearchNode.Holds (s : SearchNode K) (key : Str) (resp : SearchResponse K) : Prop :=
  ∃ c ∈ s.calls, normalizeKey c.query = key ∧ c.phase = .put resp

/-- A step leaves queries and responses alone, but for a new request, a search in the
environment as it is, and an insertion. -/
structure SearchNode.Effect (s : SearchNode K) (e : SearchEvent K) (s' : SearchNode K) : Prop where
  ttl : s'.cache.ttl = s.cache.ttl
  now : s.now ≤ s'.now
  site : s'.site = s.site ∨ e = .change s'.site
  query : ∀ c ∈ s'.calls, (∃ c₀ ∈ s.calls, c.query = c₀.query) ∨
    ∃ req, e = .request req ∧ c.query = parseQuery (searchParam req)
  held : ∀ key resp, s'.Holds key resp → s.Holds key resp ∨
    ∃ c ∈ s.calls, normalizeKey c.query = key ∧ resp = fresh s.env c.query
  stored : ∀ key entry, s'.cache.map key = some entry → s.cache.map key = some entry ∨
    (entry.inserted = s.now ∧ s.Holds key entry.response)

/-- A step that leaves the calls alone. -/
theorem SearchNode.Effect.frame (hcache : s'.cache = s.cache) (hcalls : s'.calls = s.calls)
    (hnow : s.now ≤ s'.now) (hsite : s'.site = s.site ∨ e = .change s'.site) : s.Effect e s' where
  ttl := by rw [hcache]
  now := hnow
  site := hsite
  query := by
    rw [hcalls]
    exact fun c hc => .inl ⟨c, hc, rfl⟩
  held := by
    intro key resp hheld
    rw [Holds, hcalls] at hheld
    exact .inl hheld
  stored := by
    rw [hcache]
    exact fun key entry hentry => .inl hentry

theorem SearchNode.effect_request {req : Request}
    (h : s.step (.request req) = some s') : s.Effect (.request req) s' := by
  simp only [step] at h
  split at h
  · cases h
    refine ⟨rfl, Nat.le_refl _, .inl rfl, fun c hc => ?_, ?_, fun key entry hentry => .inl hentry⟩
    · rcases List.mem_cons.mp hc with rfl | hc
      · exact .inr ⟨req, rfl, rfl⟩
      · exact .inl ⟨c, hc, rfl⟩
    · rintro key resp ⟨c, hc, hkey, hphase⟩
      rcases List.mem_cons.mp hc with rfl | hc
      · cases hphase
      · exact .inl ⟨c, hc, hkey, hphase⟩
  · cases h
    exact .frame rfl rfl (Nat.le_refl _) (.inl rfl)

/-- A call that takes its next step keeps its query. -/
theorem SearchNode.query_set {i : Nat} {pq : ParsedQuery} {phase phase' : SearchPhase K}
    (hcall : s.calls[i]? = some ⟨pq, phase⟩) :
    ∀ c ∈ s.calls.set i ⟨pq, phase'⟩, ∃ c₀ ∈ s.calls, c.query = c₀.query := by
  intro c hc
  rcases List.mem_or_eq_of_mem_set hc with hc | rfl
  · exact ⟨c, hc, rfl⟩
  · exact ⟨_, List.mem_of_getElem? hcall, rfl⟩

theorem SearchNode.effect_get {i : Nat} (h : s.step (.get i) = some s') : s.Effect (.get i) s' := by
  simp only [step] at h
  split at h
  · next pq hcall =>
    rcases s.cache.get_cases (normalizeKey pq) s.now with
      ⟨entry, -, -, hget⟩ | ⟨cache, hget, httl, hfewer⟩
    · -- the call is answered
      rw [hget] at h
      cases h
      refine ⟨rfl, Nat.le_refl _, .inl rfl, fun c hc => .inl ⟨c, List.mem_of_mem_eraseIdx hc, rfl⟩,
        ?_, fun key entry hentry => .inl hentry⟩
      rintro key resp ⟨c, hc, hkey, hphase⟩
      exact .inl ⟨c, List.mem_of_mem_eraseIdx hc, hkey, hphase⟩
    · rw [hget] at h
      cases h
      refine ⟨httl, Nat.le_refl _, .inl rfl, fun c hc => .inl (query_set hcall c hc), ?_,
        fun key entry hentry => .inl (hfewer key entry hentry)⟩
      rintro key resp ⟨c, hc, hkey, hphase⟩
      rcases List.mem_or_eq_of_mem_set hc with hc | rfl
      · exact .inl ⟨c, hc, hkey, hphase⟩
      · cases hphase
  · cases h

theorem SearchNode.effect_search {i : Nat} (h : s.step (.search i) = some s') :
    s.Effect (.search i) s' := by
  simp only [step] at h
  split at h
  · next pq hcall =>
    cases h
    refine ⟨rfl, Nat.le_refl _, .inl rfl, fun c hc => .inl (query_set hcall c hc), ?_,
      fun key entry hentry => .inl hentry⟩
    rintro key resp ⟨c, hc, hkey, hphase⟩
    rcases List.mem_or_eq_of_mem_set hc with hc | rfl
    · exact .inl ⟨c, hc, hkey, hphase⟩
    · cases hphase
      exact .inr ⟨_, List.mem_of_getElem? hcall, hkey, rfl⟩
  · cases h

theorem SearchNode.effect_put {i : Nat} (h : s.step (.put i) = some s') : s.Effect (.put i) s' := by
  simp only [step] at h
  split at h
  · next pq resp hcall =>
    cases h
    refine ⟨rfl, Nat.le_refl _, .inl rfl, fun c hc => .inl ⟨c, List.mem_of_mem_eraseIdx hc, rfl⟩,
      ?_, fun key entry hentry => ?_⟩
    · rintro key resp ⟨c, hc, hkey, hphase⟩
      exact .inl ⟨c, List.mem_of_mem_eraseIdx hc, hkey, hphase⟩
    · rcases HotQueryCache.map_put hentry with ⟨rfl, rfl⟩ | hold
      · exact .inr ⟨rfl, _, List.mem_of_getElem? hcall, rfl, rfl⟩
      · exact .inl hold
  · cases h

/-- **Every step.** -/
theorem SearchNode.effect_of_step (h : s.step e = some s') : s.Effect e s' := by
  cases e with
  | tick n =>
    cases h
    exact .frame rfl rfl (Nat.le_add_right _ _) (.inl rfl)
  | setClock clock =>
    cases h
    exact .frame rfl rfl (Nat.le_refl _) (.inl rfl)
  | change site =>
    cases h
    exact .frame rfl rfl (Nat.le_refl _) (.inr rfl)
  | request req => exact effect_request h
  | get i => exact effect_get h
  | search i => exact effect_search h
  | put i => exact effect_put h

/-! ## Where responses come from -/

/-- A request of the run has the key, and the response is what a search for it computes in
the state. -/
def Computed (tr : List (SearchEvent K)) (s₀ : SearchNode K) (key : Str)
    (resp : SearchResponse K) : Prop :=
  ∃ req, .request req ∈ tr ∧ normalizeKey (parseQuery (searchParam req)) = key ∧
    resp = fresh s₀.env (parseQuery (searchParam req))

theorem Computed.mono {tr tr' : List (SearchEvent K)} {s₀ : SearchNode K} {key : Str}
    {resp : SearchResponse K} (h : Computed tr s₀ key resp) (hsub : tr ⊆ tr') :
    Computed tr' s₀ key resp := by
  obtain ⟨req, hreq, hcomputed⟩ := h
  exact ⟨req, hsub hreq, hcomputed⟩

/-- Every call is of a request. -/
def FromRequests (tr : List (SearchEvent K)) (s : SearchNode K) : Prop :=
  ∀ c ∈ s.calls, ∃ req, .request req ∈ tr ∧ c.query = parseQuery (searchParam req)

theorem FromRequests.step {tr : List (SearchEvent K)} (h : FromRequests tr s)
    (heffect : s.Effect e s') : FromRequests (tr ++ [e]) s' := by
  intro c hc
  rcases heffect.query c hc with ⟨c₀, hc₀, hquery⟩ | ⟨req, hreq, hquery⟩
  · obtain ⟨req, hreq, hquery₀⟩ := h c₀ hc₀
    exact ⟨req, List.mem_append_left _ hreq, hquery.trans hquery₀⟩
  · exact ⟨req, by rw [hreq]; simp, hquery⟩

/-- What a call computes in this step. -/
theorem FromRequests.computed {tr : List (SearchEvent K)} (h : FromRequests tr s) {key : Str}
    {resp : SearchResponse K} (hcall : ∃ c ∈ s.calls, normalizeKey c.query = key ∧
      resp = fresh s.env c.query) : Computed tr s key resp := by
  obtain ⟨c, hc, hkey, hresp⟩ := hcall
  obtain ⟨req, hreq, hquery⟩ := h c hc
  rw [hquery] at hkey hresp
  exact ⟨req, hreq, hkey, hresp⟩

/-- No request has a response yet. -/
def SearchNode.Quiet (s : SearchNode K) : Prop := ∀ key resp, ¬ s.Holds key resp

/-- After a run that goes on from another: what a call holds was computed in a state of it. -/
structure Traced (T : Lts (SearchNode K) (SearchEvent K)) (before tr : List (SearchEvent K))
    (s : SearchNode K) : Prop where
  requested : FromRequests (before ++ tr) s
  held : ∀ key resp, s.Holds key resp → T.Past tr s fun s₀ => Computed (before ++ tr) s₀ key resp

theorem traced_of_run {T : Lts (SearchNode K) (SearchEvent K)} {before tr : List (SearchEvent K)}
    (h : T.Run tr s) (hstep : ∀ s e s', T.step s e s' → s.step e = some s')
    (hinit : ∀ s, T.init s → FromRequests before s ∧ s.Quiet) : Traced T before tr s := by
  induction h with
  | start hs =>
    obtain ⟨hrequested, hquiet⟩ := hinit _ hs
    refine ⟨?_, fun key resp hheld => absurd hheld (hquiet key resp)⟩
    rwa [List.append_nil]
  | @next tr s e s' hrun hnext ih =>
    have heffect := SearchNode.effect_of_step (hstep _ _ _ hnext)
    have hsub : before ++ tr ⊆ before ++ (tr ++ [e]) := by
      rw [← List.append_assoc]
      exact List.subset_append_left _ _
    constructor
    · rw [← List.append_assoc]
      exact ih.requested.step heffect
    · intro key resp hheld
      rcases heffect.held key resp hheld with hold | hnew
      · exact ((ih.held key resp hold).next hnext).mono fun _ hcomputed => hcomputed.mono hsub
      · have hnow : T.Past tr s fun s₀ => Computed (before ++ (tr ++ [e])) s₀ key resp :=
          hrun.past ((ih.requested.computed hnew).mono hsub)
        exact hnow.next hnext

/-! ## Runs of a server -/

theorem quiet_of_init (h : (searches ttl).init s) : FromRequests [] s ∧ s.Quiet := by
  obtain ⟨-, hcalls⟩ := h
  refine ⟨by simp [FromRequests, hcalls], ?_⟩
  rintro key resp ⟨c, hc, -⟩
  rw [hcalls] at hc
  cases hc

theorem ttl_of_run {tr : List (SearchEvent K)} (h : (searches ttl).Run tr s) :
    s.cache.ttl = ttl := by
  induction h with
  | start hs =>
    rw [hs.1]
    rfl
  | next _ hstep ih => exact (SearchNode.effect_of_step hstep).ttl.trans ih

/-- The site of a run without a change. -/
theorem site_of_run {post : List (SearchEvent K)} {s₁ : SearchNode K}
    (h : ((searches ttl).fromState s₁).Run post s) (hsame : ∀ site, .change site ∉ post) :
    s.site = s₁.site := by
  refine h.invariant (P := fun e => ∀ site, e ≠ .change site)
    (I := fun _ s => s.site = s₁.site) ⟨?_, ?_⟩ fun e he site heq => hsame site (heq ▸ he)
  · rintro s rfl
    rfl
  · intro tr s e s' hne hsite hstep
    exact ((SearchNode.effect_of_step hstep).site.resolve_right (hne _)).trans hsite

/-! ## What the cache holds -/

def SearchNode.Stores (s : SearchNode K) (key : Str) (resp : SearchResponse K) (t : Nat) : Prop :=
  s.cache.map key = some ⟨t, resp⟩

theorem searches_dated (ttl : Nat) :
    (searches (K := K) ttl).Dated SearchNode.now SearchNode.Holds SearchNode.Stores where
  now_le _ _ _ hstep := (SearchNode.effect_of_step hstep).now
  stored_of_step _ _ _ hstep key resp t hentry :=
    (SearchNode.effect_of_step hstep).stored key ⟨t, resp⟩ hentry

/-- What answers a request is held by a call, or is young enough in the cache. -/
theorem Answers.current {pq : ParsedQuery} {resp : SearchResponse K} (h : Answers s e pq resp) :
    Lts.Current SearchNode.now SearchNode.Holds SearchNode.Stores s.cache.ttl s (normalizeKey pq)
      resp := by
  cases h with
  | hit hcall hget =>
    rcases s.cache.get_cases (normalizeKey pq) s.now with
      ⟨entry, hentry, hyoung, hsome⟩ | ⟨cache, hnone, -, -⟩
    · rw [hsome] at hget
      cases hget
      exact .inr ⟨entry.inserted, hentry, hyoung⟩
    · rw [hnone] at hget
      cases hget
  | miss hcall => exact .inl ⟨_, List.mem_of_getElem? hcall, rfl, rfl⟩

/-- A request about rust. -/
def rustRequest : Request := (searchVisit "rust".toList).req

/-- A site with one page. -/
def rustSite : SearchSite ℚ where
  overloaded := false
  force500 := false
  tables := .latin1
  engine :=
    let page : IndexDocument := ⟨"gurt://a.b/".toList, "a.b".toList, "Rust".toList,
      "Rust".toList, 0, "en".toList, "static".toList⟩
    ⟨[], [page], [page]⟩
  score := fun _ _ => 1
  rescoring := exactEnv

/-- It is asked, answered, and asked again after five ticks; the system clock is set back. -/
def askedTwice : List (SearchEvent ℚ) :=
  [.request rustRequest, .get 0, .search 0, .put 0, .tick 5, .setClock (-3), .request rustRequest]

/-- The state after them. -/
def askedAgain : SearchNode ℚ :=
  let pq := parseQuery (searchParam rustRequest)
  ⟨5, -3, rustSite, (HotQueryCache.new 20).put (normalizeKey pq) (fresh (rustSite.env 0) pq) 0,
    [⟨pq, .get⟩]⟩

theorem askedTwice_run : (searches 20).Run askedTwice askedAgain := by
  have hadmits : ∀ clock, admits (rustSite.env clock) rustRequest = true := by
    intro clock
    have hasks : (Str.trim (searchParam rustRequest)).isEmpty = false := by decide +kernel
    rw [admits, hasks]
    rfl
  have hrequest : ∀ s : SearchNode ℚ, s.site = rustSite →
      s.step (.request rustRequest)
        = some { s with calls := ⟨parseQuery (searchParam rustRequest), .get⟩ :: s.calls } := by
    intro s hsite
    simp only [SearchNode.step, SearchNode.env, hsite, hadmits, if_true]
  have hmiss : ∀ pq, SearchNode.step ⟨0, 0, rustSite, .new 20, [⟨pq, .get⟩]⟩ (.get 0)
      = some ⟨0, 0, rustSite, .new 20, [⟨pq, .search⟩]⟩ := by
    intro pq
    have hempty : (HotQueryCache.new 20 : HotQueryCache ℚ).map (normalizeKey pq) = none := rfl
    simp [SearchNode.step, HotQueryCache.get_of_none hempty]
  have hsearch : ∀ pq, SearchNode.step ⟨0, 0, rustSite, .new 20, [⟨pq, .search⟩]⟩ (.search 0)
      = some ⟨0, 0, rustSite, .new 20, [⟨pq, .put (fresh (rustSite.env 0) pq)⟩]⟩ := fun _ => rfl
  have hput : ∀ pq resp, SearchNode.step ⟨0, 0, rustSite, .new 20, [⟨pq, .put resp⟩]⟩ (.put 0)
      = some ⟨0, 0, rustSite, (HotQueryCache.new 20).put (normalizeKey pq) resp 0, []⟩ :=
    fun _ _ => rfl
  have htick : ∀ cache, SearchNode.step ⟨0, 0, rustSite, cache, []⟩ (.tick 5)
      = some ⟨5, 0, rustSite, cache, []⟩ := fun _ => rfl
  have hclock : ∀ cache, SearchNode.step ⟨5, 0, rustSite, cache, []⟩ (.setClock (-3))
      = some ⟨5, -3, rustSite, cache, []⟩ := fun _ => rfl
  have hstart : (searches 20).Run [] ⟨0, 0, rustSite, .new 20, []⟩ := .start ⟨rfl, rfl⟩
  exact ((((((hstart.next (hrequest _ rfl)).next (hmiss _)).next (hsearch _)).next
    (hput _ _)).next (htick _)).next (hclock _)).next (hrequest _ rfl)

end Gurted.Router
