import Gurted.Router.ExtWeb
import Gurted.Router.Search

/-!
# The query of the page and the query of the API

`GET /search` stops at the first pair with key `q`, `GET /api/search` goes on to
the last one. Both are read off the list of the values of `q`.
-/

namespace Gurted.Router

open Gurted Gurted.Api

variable {SocketAddr : Type*}

/-- The value of a pair with key `q`. -/
def qValue (pair : Str) : Option Str :=
  match Str.splitOnce '=' pair with
  | some (k, v) => if k = ['q'] then some v else none
  | none => none

/-- The values of `q` in a query string, in order and not decoded. -/
def qValues (query : Str) : List Str := (Str.split '&' query).filterMap qValue

theorem firstQ_eq (query : Str) : firstQ query = (qValues query).head? := by
  rw [qValues, List.head?_filterMap]
  rfl

/-- The loop of `handle_search`: a value overwrites the one before it. -/
theorem foldl_searchParam (pairs : List Str) (q : Option Str) :
    pairs.foldl (fun q pair =>
        match Str.splitOnce '=' pair with
        | some (k, v) => if k = ['q'] then some (percentDecode v) else q
        | none => q) q
      = ((pairs.filterMap qValue).getLast?.map percentDecode).or q := by
  induction pairs generalizing q with
  | nil => rfl
  | cons pair pairs ih =>
    have hpair : (match Str.splitOnce '=' pair with
        | some (k, v) => if k = ['q'] then some (percentDecode v) else q
        | none => q) = ((qValue pair).map percentDecode).or q := by
      rw [qValue]
      split
      · split
        · rfl
        · rfl
      · rfl
    rw [List.foldl_cons, hpair, ih, List.filterMap_cons]
    cases qValue pair with
    | none => rfl
    | some v =>
      rw [List.getLast?_cons]
      cases (pairs.filterMap qValue).getLast? with
      | none => rfl
      | some w => rfl

theorem searchParam_eq {req : Request} {query : Str} (h : req.query = some query) :
    searchParam req = ((qValues query).getLast?.map percentDecode).getD [] := by
  have hloop := foldl_searchParam (Str.split '&' query) none
  rw [Option.or_none] at hloop
  rw [searchParam, h]
  exact congrArg (fun q => q.getD []) hloop

theorem searchCall_eq {req : Request} {query v : Str} (h : req.query = some query)
    (hv : (qValues query).head? = some v) :
    (searchCall req : Call SocketAddr) = .renderSearchSsr (percentDecode v) := by
  rw [searchCall, h, Option.bind_some, firstQ_eq, hv]

/-- The target of a request for a page with a query string. -/
def withQuery (page query : Str) : Str := page ++ '?' :: query

/-- Where a query string has a pair with key `q`, the page is rendered, in both
builds, for the string the API searches for. -/
def SearchesAlike (SocketAddr : Type*) (query : Str) : Prop :=
  qValues query ≠ [] → ∀ (page api : Request) (peer : Option SocketAddr),
    page.method = "GET".toList → page.path = withQuery "/search".toList query →
    api.method = "GET".toList → api.path = withQuery "/api/search".toList query →
      handleWithPeer page peer = .renderSearchSsr (searchParam api)
        ∧ ExtWeb.webSearch page peer = .renderSearchSsr (searchParam api)

/-- `GET /search` and `GET /api/search` read the query string they are asked with. -/
theorem query_search {req : Request} {query : Str}
    (h : req.path = withQuery "/search".toList query) :
    req.query = some query ∧ routePath req = "/search".toList := by
  have hpage : '?' ∉ "/search".toList := by decide
  exact ⟨query_of_path hpage h, routePath_of_path hpage h⟩

theorem query_apiSearch {req : Request} {query : Str}
    (h : req.path = withQuery "/api/search".toList query) : req.query = some query := by
  have hpage : '?' ∉ "/api/search".toList := by decide
  exact query_of_path hpage h

/-- A rendered page and a search of one query string show its first and its last
value. -/
theorem values_of_searchesAlike {query : Str} (h : SearchesAlike SocketAddr query) :
    (qValues query).head?.map percentDecode = (qValues query).getLast?.map percentDecode := by
  cases hhead : (qValues query).head? with
  | none =>
    rw [List.head?_eq_none_iff.mp hhead]
    rfl
  | some first =>
    have hne : qValues query ≠ [] := by
      intro hnil
      rw [hnil] at hhead
      cases hhead
    obtain ⟨hpage, -⟩ := h hne (getRequest (withQuery "/search".toList query))
      (getRequest (withQuery "/api/search".toList query)) none rfl rfl rfl rfl
    obtain ⟨hquery, hroute⟩ := query_search
      (show (getRequest (withQuery "/search".toList query)).path = _ from rfl)
    rw [handleWithPeer_search none rfl hroute, searchCall_eq hquery hhead,
      searchParam_eq (query_apiSearch rfl), List.getLast?_eq_some_getLast hne] at hpage
    rw [List.getLast?_eq_some_getLast hne]
    exact congrArg some (Call.renderSearchSsr.inj hpage)

theorem searchesAlike_of_values {query : Str}
    (h : (qValues query).head?.map percentDecode = (qValues query).getLast?.map percentDecode) :
    SearchesAlike SocketAddr query := by
  intro hne page api peer hmethod hpath _ hpath'
  obtain ⟨hquery, hroute⟩ := query_search hpath
  obtain ⟨first, hhead⟩ := Option.isSome_iff_exists.mp
    (List.isSome_head?.mpr hne)
  have hcall : (searchCall page : Call SocketAddr) = .renderSearchSsr (searchParam api) := by
    rw [searchCall_eq hquery hhead, searchParam_eq (query_apiSearch hpath'), ← h, hhead]
    rfl
  refine ⟨?_, hcall⟩
  rw [handleWithPeer_search peer hmethod hroute]
  exact hcall

/-- **One query string, one query**: exactly when the first and the last value of
`q` decode to the same string. -/
theorem searchesAlike_iff (SocketAddr : Type*) (query : Str) :
    SearchesAlike SocketAddr query
      ↔ (qValues query).head?.map percentDecode = (qValues query).getLast?.map percentDecode :=
  ⟨values_of_searchesAlike, searchesAlike_of_values⟩

/-- Two values: the page is that of `a`, the API searches for `b`. -/
theorem not_searchesAlike_twice : ¬ SearchesAlike Unit "q=a&q=b".toList := by
  intro halike
  exact absurd (values_of_searchesAlike halike) (by decide +kernel)

end Gurted.Router
