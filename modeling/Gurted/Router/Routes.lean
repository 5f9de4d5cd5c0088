import Gurted.Router.Ui
import Gurted.Router.Util

/-!
# Routes (`gurtd/src/router/mod.rs`)

The router picks a handler and its arguments; the handlers are modelled in their
own modules.
-/

namespace Gurted.Router

open Gurted Gurted.Api Gurted.Path

variable {SocketAddr : Type*}

/-- The call a request leads to. -/
inductive Call (SocketAddr : Type*) where
  | serveIndexHtml
  | renderSearchSsr (q : Str)
  | serveSearchHtml
  | serveDomainsHtml
  | serveAsset (path : Str)
  /-- `{"status":"ready"}`. -/
  | healthReady
  | handleSearch (req : Request)
  | handleAddSite (req : Request) (peer : Option SocketAddr)
  /-- No route: an empty `BadRequest`. -/
  | badRequest
  deriving DecidableEq, Repr

/-- The part of the path before the first `?`. -/
def routePath (req : Request) : Str := (Str.split '?' req.path).headD []

/-- The value of the first pair with key `q`. -/
def firstQ (query : Str) : Option Str :=
  (Str.split '&' query).findSome? fun pair =>
    match Str.splitOnce '=' pair with
    | some (k, v) => if k = ['q'] then some v else none
    | none => none

/-- `GET /search`: rendered with results if there is a query. -/
def searchCall (req : Request) : Call SocketAddr :=
  -- the first pair counts here, the last one in `/api/search`
  match req.query.bind firstQ with
  | some v => .renderSearchSsr (percentDecode v)
  | none => .serveSearchHtml

/-- `handle_with_peer`, built without `ext-web`. -/
def handleWithPeer (req : Request) (peer : Option SocketAddr) : Call SocketAddr :=
  let path := routePath req
  if req.method = "GET".toList ∧ path = "/".toList then .serveIndexHtml
  else if req.method = "GET".toList ∧ path = "/search".toList then searchCall req
  else if req.method = "GET".toList ∧ path = "/domains".toList then .serveDomainsHtml
  else if req.method = "GET".toList ∧ path.startsWith assetsPrefix then .serveAsset path
  else if req.method = "GET".toList ∧ path = "/health/ready".toList then .healthReady
  else if req.method = "GET".toList ∧ path = "/api/search".toList then .handleSearch req
  else if req.method = "POST".toList ∧ path = "/api/sites".toList then .handleAddSite req peer
  else .badRequest

/-- The first `?` of a path is where its query begins. -/
theorem query_of_path {req : Request} {page query : Str} (hpage : '?' ∉ page)
    (h : req.path = page ++ '?' :: query) : req.query = some query := by
  rw [Request.query, h, Str.splitOnce_append hpage]
  rfl

theorem routePath_of_path {req : Request} {page query : Str} (hpage : '?' ∉ page)
    (h : req.path = page ++ '?' :: query) : routePath req = page := by
  have hne : ∀ c ∈ page, (c == '?') = false := fun c hc =>
    beq_eq_false_iff_ne.mpr fun heq => hpage (heq ▸ hc)
  rw [routePath, h, Str.split, List.splitOnP_append_cons_of_forall_mem hne '?' rfl]
  rfl

theorem handleWithPeer_search {req : Request} (peer : Option SocketAddr)
    (hmethod : req.method = "GET".toList) (hroute : routePath req = "/search".toList) :
    handleWithPeer req peer = searchCall req := by
  have hroot : ¬ ("/search".toList = "/".toList) := by decide
  rw [handleWithPeer]
  simp only [hmethod, hroute, hroot, and_false, if_false, and_self, if_true]

theorem searchCall_ne_serveAsset (req : Request) (path : Str) :
    (searchCall req : Call SocketAddr) ≠ .serveAsset path := by
  rw [searchCall]
  split <;> simp

/-- What reaches `serve_asset`: the part of the path before `?`, with the prefix. -/
theorem handleWithPeer_eq_serveAsset {req : Request} {peer : Option SocketAddr} {path : Str}
    (h : handleWithPeer req peer = .serveAsset path) :
    req.method = "GET".toList ∧ path = routePath req ∧ ∃ rel, path = assetsPrefix ++ rel := by
  rw [handleWithPeer] at h
  split at h
  · cases h
  · split at h
    · exact absurd h (searchCall_ne_serveAsset req path)
    · split at h
      · cases h
      · split at h
        · next hasset =>
          obtain ⟨hget, hstart⟩ := hasset
          cases h
          obtain ⟨rel, hrel⟩ := List.isPrefixOf_iff_prefix.mp hstart
          exact ⟨hget, rfl, rel, hrel.symm⟩
        · split at h
          · cases h
          · split at h
            · cases h
            · split at h <;> cases h

/-- No other route takes a path with the prefix. -/
theorem handleWithPeer_assets {req : Request} (peer : Option SocketAddr)
    (hget : req.method = "GET".toList) (hstart : (routePath req).startsWith assetsPrefix = true) :
    handleWithPeer req peer = .serveAsset (routePath req) := by
  have hother :
      ∀ route : Str, Str.startsWith route assetsPrefix = false → routePath req ≠ route := by
    intro route hroute heq
    rw [heq, hroute] at hstart
    cases hstart
  have hroot := hother "/".toList (by decide)
  have hsearch := hother "/search".toList (by decide)
  have hdomains := hother "/domains".toList (by decide)
  rw [handleWithPeer]
  simp only [hget, hroot, hsearch, hdomains, hstart, and_false, and_self, if_false, if_true]

/-- **Which asset requests stay inside.** For every path the router sends to
`serve_asset`: a file that is read belongs to the assets if and only if the rest
of the path is relative, is refused for its `..`, names nothing that can be read,
or names the assets itself. -/
theorem contained_iff (env : UiEnv) {req : Request} {peer : Option SocketAddr} {path : Str}
    (h : handleWithPeer req peer = .serveAsset path) :
    Contained env path ↔ StaysInside env (path.drop assetsPrefix.length) := by
  obtain ⟨-, -, rel, rfl⟩ := handleWithPeer_eq_serveAsset h
  rw [List.drop_left]
  exact contained_append_iff env rel

/-- A `GET` without headers. -/
def getRequest (path : Str) : Request := ⟨"GET".toList, path, [], []⟩

/-- Every file can be read. -/
def readableEnv : UiEnv := ⟨none, "/srv".toList, none, none, fun _ => false, fun _ => some []⟩

theorem contained_iff_lua :
    Contained readableEnv "/assets/app.lua".toList ↔
      StaysInside readableEnv ("/assets/app.lua".toList.drop assetsPrefix.length) :=
  have hroute : handleWithPeer (getRequest "/assets/app.lua?v=1".toList) (none : Option Unit)
      = .serveAsset "/assets/app.lua".toList := by decide
  contained_iff readableEnv hroute

/-- A second slash: the file is outside. -/
theorem not_contained_secondSlash :
    handleWithPeer (getRequest "/assets//etc/passwd".toList) (none : Option Unit)
        = .serveAsset "/assets//etc/passwd".toList ∧
      (serveAsset readableEnv "/assets//etc/passwd".toList).bind Served.file
        = some "/etc/passwd".toList ∧
      ¬ Contained readableEnv "/assets//etc/passwd".toList := by
  refine ⟨by decide, by decide +kernel, ?_⟩
  have hdir : assetsDir readableEnv = "/srv/ui/assets".toList := by decide
  have hpath : "/assets//etc/passwd".toList = assetsPrefix ++ "/etc/passwd".toList := by decide
  rw [hpath, contained_append_iff, StaysInside, hdir]
  have hread : ¬ readableEnv.read "/etc/passwd".toList = none := by simp [readableEnv]
  have hothers : ¬ (isAbsolute "/etc/passwd".toList = false ∨
      Str.contains "/etc/passwd".toList "..".toList = true ∨
      components "/srv/ui/assets".toList <+: components "/etc/passwd".toList) := by
    decide +kernel
  tauto

end Gurted.Router
