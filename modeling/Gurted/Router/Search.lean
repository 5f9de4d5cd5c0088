import Gurted.Api.HttpLike
import Gurted.Index.Search
import Gurted.Search.HotCache
import Gurted.Router.Util

/-!
# `/api/search` (`handle_search` of `gurtd/src/router/api.rs`)

A search goes through the hot query cache. `transparent_iff` compares the answers
of a sequence of requests with those the same queries get without a cache.
-/

namespace Gurted.Router

open Gurted Gurted.Api Gurted.Query Gurted.Index Gurted.Search

variable {S : Type*}

/-! ## The handler -/

/-- What a search depends on besides its query: the environment flags, the index
with its analysis and scoring, and `rescore_and_convert` at the instant and with
the link authorities of the run. -/
structure SearchEnv (S : Type*) where
  /-- `GURT_OVERLOADED` is set and not `0`. -/
  overloaded : Bool
  /-- `GURT_FORCE_500` is set and not `0`. -/
  force500 : Bool
  tables : CharTables
  engine : Engine
  score : List Clause → IndexDocument → S
  rescore : List (SearchHit S) → Nat → List (SearchResultItem S)

/-- What `handle_search` answers: a bare status, or status 200 with a response
that is serialised as JSON. -/
inductive SearchReply (S : Type*) where
  | refused (code : StatusCode)
  | answered (resp : SearchResponse S)

/-- The `q` parameter: the last one counts. -/
def searchParam (req : Request) : Str :=
  let pairs := req.query.elim [] (Str.split '&')
  let q := pairs.foldl (fun q pair =>
    match Str.splitOnce '=' pair with
    | some (k, v) => if k = ['q'] then some (percentDecode v) else q
    | none => q) (none : Option Str)
  q.getD []

/-- A request with the instants of its look-up and of its insertion. -/
structure Visit where
  req : Request
  getAt : Nat
  putAt : Nat

/-- The parsed query of a request. -/
def Visit.query (v : Visit) : ParsedQuery := parseQuery (searchParam v.req)

def Visit.key (v : Visit) : Str := normalizeKey v.query

/-- The request gets a search response. -/
def Visit.answers (v : Visit) (env : SearchEnv S) : Bool :=
  !(Str.trim (searchParam v.req)).isEmpty && !env.overloaded && !env.force500

/-- The first answered request with a key. -/
def firstWith (env : SearchEnv S) (key : Str) (vs : List Visit) : Option Visit :=
  vs.find? fun v => v.answers env && v.key == key

theorem firstWith_append (env : SearchEnv S) (key : Str) (vs : List Visit) (v : Visit) :
    firstWith env key (vs ++ [v])
      = (firstWith env key vs).or (if v.answers env && v.key == key then some v else none) := by
  rw [firstWith, List.find?_append, List.find?_singleton]
  rfl

theorem exists_firstWith {env : SearchEnv S} {vs : List Visit} {v : Visit} (hv : v ∈ vs)
    (hans : v.answers env = true) :
    ∃ x ∈ vs, x.answers env = true ∧ x.key = v.key ∧ firstWith env v.key vs = some x := by
  cases hx : firstWith env v.key vs with
  | none =>
    have := List.find?_eq_none.mp hx v hv
    simp [hans] at this
  | some x =>
    have hprop := List.find?_some hx
    rw [Bool.and_eq_true, beq_iff_eq] at hprop
    exact ⟨x, List.mem_of_find?_eq_some hx, hprop.1, hprop.2, rfl⟩

variable [LinearOrder S]

def defaultPage : Nat := 1

def defaultSize : Nat := 10

/-- The response computed on a cache miss. -/
def fresh (env : SearchEnv S) (pq : ParsedQuery) : SearchResponse S :=
  let hits := env.engine.search env.tables env.score pq defaultPage defaultSize
  let results := env.rescore hits defaultSize
  ⟨Str.join [' '] pq.terms, results.length, defaultPage, defaultSize, results⟩

/-- `handle_search`. -/
def handleSearch (env : SearchEnv S) (cache : HotQueryCache S) (v : Visit) :
    SearchReply S × HotQueryCache S :=
  let q := searchParam v.req
  if (Str.trim q).isEmpty then (.refused .badRequest, cache)
  else if env.overloaded then (.refused .tooManyRequests, cache)
  else if env.force500 then (.refused .internalServerError, cache)
  else
    let pq := parseQuery q
    let key := normalizeKey pq
    match cache.get key v.getAt with
    | (some hit, cache) => (.answered hit, cache)
    | (none, cache) =>
        let resp := fresh env pq
        (.answered resp, cache.put key resp v.putAt)

/-! ## Sequences of requests -/

/-- The cache after a sequence of requests. -/
def cacheAfter (env : SearchEnv S) (cache : HotQueryCache S) (vs : List Visit) :
    HotQueryCache S :=
  vs.foldl (fun cache v => (handleSearch env cache v).2) cache

/-- Two responses with the same results and total, and the same echo of the query
up to ASCII case. -/
structure Agrees (r f : SearchResponse S) : Prop where
  results : r.results = f.results
  total : r.total = f.total
  query : Str.eqIgnoreAsciiCase r.query f.query = true

/-- Every answer in the sequence agrees with the one computed without a cache. -/
def Transparent (env : SearchEnv S) (ttl : Nat) (vs : List Visit) : Prop :=
  ∀ pre v post, vs = pre ++ v :: post → ∀ resp,
    (handleSearch env (cacheAfter env (.new ttl) pre) v).1 = .answered resp →
      Agrees resp (fresh env v.query)

/-- The requests are so close together that no entry gets too old. -/
def WithinTtl (ttl : Nat) (vs : List Visit) : Prop :=
  ∀ v ∈ vs, ∀ w ∈ vs, w.getAt - v.putAt ≤ ttl

/-- The cache that holds the first answer for each key. -/
def firstAnswers (env : SearchEnv S) (ttl : Nat) (vs : List Visit) : HotQueryCache S :=
  ⟨ttl, fun key => (firstWith env key vs).map fun v => ⟨v.putAt, fresh env v.query⟩⟩

theorem handleSearch_refused {env : SearchEnv S} {v : Visit} (h : v.answers env = false)
    (cache : HotQueryCache S) :
    ∃ code, handleSearch env cache v = (.refused code, cache) := by
  rw [Visit.answers, Bool.and_eq_false_iff, Bool.and_eq_false_iff] at h
  rw [handleSearch]
  by_cases hblank : (Str.trim (searchParam v.req)).isEmpty = true
  · exact ⟨_, if_pos hblank⟩
  · rw [if_neg hblank]
    by_cases hover : env.overloaded = true
    · exact ⟨_, if_pos hover⟩
    · rw [if_neg hover]
      by_cases hforce : env.force500 = true
      · exact ⟨_, if_pos hforce⟩
      · simp [hblank, hover, hforce] at h

theorem handleSearch_answered {env : SearchEnv S} {v : Visit} (h : v.answers env = true)
    (cache : HotQueryCache S) :
    handleSearch env cache v =
      match cache.get v.key v.getAt with
      | (some hit, cache) => (.answered hit, cache)
      | (none, cache) =>
          (.answered (fresh env v.query), cache.put v.key (fresh env v.query) v.putAt) := by
  simp only [Visit.answers, Bool.and_eq_true, Bool.not_eq_true'] at h
  obtain ⟨⟨hblank, hover⟩, hforce⟩ := h
  rw [handleSearch]
  simp only [hblank, hover, hforce, Bool.false_eq_true, if_false]
  rfl

/-- **One request.** With the first answers in the cache, an answered request gets
the first answer for its key, and the first answers stay in the cache. -/
theorem handleSearch_firstAnswers {env : SearchEnv S} {ttl : Nat} {vs : List Visit} {v : Visit}
    (hv : v.answers env = true) (httl : ∀ w ∈ vs, v.getAt - w.putAt ≤ ttl) :
    handleSearch env (firstAnswers env ttl vs) v
      = (.answered (fresh env ((firstWith env v.key vs).getD v).query),
          firstAnswers env ttl (vs ++ [v])) := by
  rw [handleSearch_answered hv]
  cases hfirst : firstWith env v.key vs with
  | some w =>
    have hw : w ∈ vs := List.mem_of_find?_eq_some hfirst
    have hentry : (firstAnswers env ttl vs).map v.key = some ⟨w.putAt, fresh env w.query⟩ := by
      simp only [firstAnswers, hfirst, Option.map_some]
    have hsame : firstAnswers env ttl (vs ++ [v]) = firstAnswers env ttl vs := by
      simp only [firstAnswers, HotQueryCache.mk.injEq, true_and]
      funext key
      rw [firstWith_append]
      by_cases hkey : v.key = key
      · rw [← hkey, hfirst]
        rfl
      · simp [hkey]
    rw [HotQueryCache.get_of_some hentry (httl w hw), hsame]
    rfl
  | none =>
    have hentry : (firstAnswers env ttl vs).map v.key = none := by
      simp only [firstAnswers, hfirst, Option.map_none]
    have hnew : (firstAnswers env ttl vs).put v.key (fresh env v.query) v.putAt
        = firstAnswers env ttl (vs ++ [v]) := by
      simp only [HotQueryCache.put, firstAnswers, HotQueryCache.mk.injEq, true_and]
      funext key
      rw [firstWith_append, hv, Bool.true_and]
      by_cases hkey : v.key = key
      · rw [← hkey, Function.update_self, hfirst]
        simp
      · rw [Function.update_of_ne (Ne.symm hkey)]
        simp [hkey]
    rw [HotQueryCache.get_of_none hentry]
    exact congrArg _ hnew

/-- **All requests.** The cache always holds the first answer for each key. -/
theorem cacheAfter_eq {env : SearchEnv S} {ttl : Nat} {vs : List Visit} (h : WithinTtl ttl vs) :
    cacheAfter env (.new ttl) vs = firstAnswers env ttl vs := by
  -- on the last request, which meets the cache the others left
  induction vs using List.reverseRecOn with
  | nil => rfl
  | append_singleton vs v ih =>
    have hvs : WithinTtl ttl vs := fun x hx y hy => h x (by simp [hx]) y (by simp [hy])
    have hlast : cacheAfter env (.new ttl) (vs ++ [v])
        = (handleSearch env (cacheAfter env (.new ttl) vs) v).2 := by
      rw [cacheAfter, List.foldl_append]
      rfl
    rw [hlast, ih hvs]
    cases hv : v.answers env with
    | true => rw [handleSearch_firstAnswers hv fun w hw => h w (by simp [hw]) v (by simp)]
    | false =>
      obtain ⟨code, hrefused⟩ := handleSearch_refused hv (firstAnswers env ttl vs)
      rw [hrefused]
      simp only [firstAnswers, HotQueryCache.mk.injEq, true_and]
      funext key
      rw [firstWith_append, hv]
      simp

/-! ## When the cache shows -/

/-- The answers to two queries agree if their terms do. -/
theorem agrees_fresh_iff {env : SearchEnv S} (v w : Visit) :
    Agrees (fresh env v.query) (fresh env w.query) ↔ SameTerms v.query.terms w.query.terms := by
  have hecho := sameTerms_iff (areTokens_terms (searchParam v.req))
    (areTokens_terms (searchParam w.req))
  constructor
  · exact fun h => hecho.mp h.query
  · intro h
    have hsearch := search_congr env.tables env.score env.engine h defaultPage defaultSize
    refine ⟨?_, ?_, hecho.mpr h⟩
    · simp only [fresh, hsearch]
    · simp only [fresh, hsearch]

/-- Answered requests with the same key have the same terms up to ASCII case. -/
def KeysFaithful (env : SearchEnv S) (vs : List Visit) : Prop :=
  ∀ v ∈ vs, ∀ w ∈ vs, v.answers env = true → w.answers env = true → v.key = w.key →
    SameTerms v.query.terms w.query.terms

/-- The answer to a request is that of the first request with its key. -/
theorem reply_of_answers {env : SearchEnv S} {ttl : Nat} {pre post : List Visit} {v : Visit}
    (httl : WithinTtl ttl (pre ++ v :: post)) (hv : v.answers env = true) :
    (handleSearch env (cacheAfter env (.new ttl) pre) v).1
      = .answered (fresh env ((firstWith env v.key (pre ++ v :: post)).getD v).query) := by
  have hpre : WithinTtl ttl pre := fun x hx y hy => httl x (by simp [hx]) y (by simp [hy])
  rw [cacheAfter_eq hpre, handleSearch_firstAnswers hv fun w hw =>
    httl w (by simp [hw]) v (by simp)]
  have hfirst : firstWith env v.key (pre ++ v :: post)
      = some ((firstWith env v.key pre).getD v) := by
    rw [firstWith, List.find?_append, ← firstWith, List.find?_cons_of_pos (by simp [hv])]
    cases firstWith env v.key pre <;> rfl
  rw [hfirst]
  rfl

/-- A transparent cache never answers with other terms. -/
theorem Transparent.sameTerms {env : SearchEnv S} {ttl : Nat} {vs : List Visit}
    (h : Transparent env ttl vs) (httl : WithinTtl ttl vs) {v x : Visit} (hv : v ∈ vs)
    (hans : v.answers env = true) (hx : firstWith env v.key vs = some x) :
    SameTerms x.query.terms v.query.terms := by
  obtain ⟨pre, post, rfl⟩ := List.append_of_mem hv
  have hreply := reply_of_answers httl hans
  rw [hx] at hreply
  exact (agrees_fresh_iff x v).mp (h pre v post rfl _ hreply)

/-- **When the cache is transparent.** For every sequence of requests within the
time to live: every answer agrees with the fresh one if and only if no two
answered queries with different terms have the same key. -/
theorem transparent_iff (env : SearchEnv S) {ttl : Nat} {vs : List Visit}
    (httl : WithinTtl ttl vs) : Transparent env ttl vs ↔ KeysFaithful env vs := by
  constructor
  · intro h v hv w hw hv' hw' hkey
    obtain ⟨x, -, -, -, hx⟩ := exists_firstWith hw hw'
    have h₁ := h.sameTerms httl hv hv' (hkey ▸ hx)
    have h₂ := h.sameTerms httl hw hw' hx
    exact h₁.symm.trans h₂
  · rintro h pre v post rfl resp hresp
    have hv : v ∈ pre ++ v :: post := by simp
    cases hans : v.answers env with
    | false =>
      obtain ⟨code, hrefused⟩ := handleSearch_refused hans (cacheAfter env (.new ttl) pre)
      rw [hrefused] at hresp
      cases hresp
    | true =>
      obtain ⟨x, hxmem, hxans, hxkey, hx⟩ := exists_firstWith hv hans
      rw [reply_of_answers httl hans, hx] at hresp
      cases hresp
      exact (agrees_fresh_iff x v).mpr (h x hxmem v hv hxans hans hxkey)

/-- A request for `/api/search`, with the query percent-encoded already. -/
def searchVisit (q : Str) : Visit :=
  ⟨⟨"GET".toList, "/api/search?q=".toList ++ q, [], []⟩, 0, 0⟩

/-- An empty index. -/
def emptyEnv : SearchEnv Nat :=
  ⟨false, false, .latin1, .new, fun _ _ => 0, fun _ _ => []⟩

/-- The same query twice, with other letters in upper case. -/
theorem transparent_iff_case :
    Transparent emptyEnv 0 [searchVisit "Rust".toList, searchVisit "rust".toList] ↔
      KeysFaithful emptyEnv [searchVisit "Rust".toList, searchVisit "rust".toList] :=
  transparent_iff emptyEnv (by simp [WithinTtl, searchVisit])

/-- A term that looks like a filter, then the filter: the second query is answered
with the echo of the first. -/
theorem not_transparent_lookAlike :
    WithinTtl 0 [searchVisit "rust%20site=a.com".toList, searchVisit "rust%20site:a.com".toList] ∧
      ¬ Transparent emptyEnv 0
        [searchVisit "rust%20site=a.com".toList, searchVisit "rust%20site:a.com".toList] := by
  have httl : WithinTtl 0
      [searchVisit "rust%20site=a.com".toList, searchVisit "rust%20site:a.com".toList] := by
    simp [WithinTtl, searchVisit]
  refine ⟨httl, fun h => ?_⟩
  have hfirst : firstWith emptyEnv (searchVisit "rust%20site:a.com".toList).key
      [searchVisit "rust%20site=a.com".toList, searchVisit "rust%20site:a.com".toList]
        = some (searchVisit "rust%20site=a.com".toList) :=
    List.find?_cons_of_pos (by decide +kernel)
  have hans : (searchVisit "rust%20site:a.com".toList).answers emptyEnv = true := by
    decide +kernel
  have hterms : ¬ (searchVisit "rust%20site=a.com".toList).query.terms.map Str.toAsciiLowercase
      = (searchVisit "rust%20site:a.com".toList).query.terms.map Str.toAsciiLowercase := by
    decide +kernel
  exact hterms (h.sameTerms httl (by simp) hans hfirst)

end Gurted.Router
