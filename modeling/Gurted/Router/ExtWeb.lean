import Gurted.Lib.Registry
import Gurted.Router.Routes

/-!
# The route registry (`gurt-web/src/lib.rs`, `gurtd/src/router/mod.rs` with `ext-web`)

With `ext-web` the routes stand in a registry, which the first request fills, and a
request is dispatched if its route is registered. `ExtWeb.handleWithPeer_eq` says that
this is the router of `Routes`.
-/

namespace Gurted.Router.ExtWeb

open Gurted Gurted.Api

variable {SocketAddr : Type*}

/-! ## The registry -/

/-- `HashMap<(method, path), key>`. -/
abbrev RouteRegistry := Lib.Registry (Str × Str) Str

/-- `register_route`: the first key for a method and a path stays. -/
def registerRoute (method path key : Str) (registry : RouteRegistry) : RouteRegistry :=
  (registry.getOrInsert (method, path) key).2

/-- `is_registered`. -/
def isRegistered (registry : RouteRegistry) (method path : Str) : Bool :=
  (method, path) ∈ registry.keys

theorem mem_keys_registerRoute {method path key : Str} {registry : RouteRegistry}
    {k : Str × Str} :
    k ∈ (registerRoute method path key registry).keys ↔ k ∈ registry.keys ∨ k = (method, path) :=
  Lib.Registry.mem_keys_getOrInsert

/-! ## The handlers, and what `#[route]` generates beside each -/

def webRoot (_req : Request) (_peer : Option SocketAddr) : Call SocketAddr := .serveIndexHtml

def webRootRegister : RouteRegistry → RouteRegistry :=
  registerRoute "GET".toList "/".toList "web_root".toList

def webSearch (req : Request) (_peer : Option SocketAddr) : Call SocketAddr :=
  match req.query.bind firstQ with
  | some v => .renderSearchSsr (percentDecode v)
  | none => .serveSearchHtml

def webSearchRegister : RouteRegistry → RouteRegistry :=
  registerRoute "GET".toList "/search".toList "web_search".toList

def webDomains (_req : Request) (_peer : Option SocketAddr) : Call SocketAddr := .serveDomainsHtml

def webDomainsRegister : RouteRegistry → RouteRegistry :=
  registerRoute "GET".toList "/domains".toList "web_domains".toList

def webHealthReady (_req : Request) (_peer : Option SocketAddr) : Call SocketAddr := .healthReady

def webHealthReadyRegister : RouteRegistry → RouteRegistry :=
  registerRoute "GET".toList "/health/ready".toList "web_health_ready".toList

def webApiSearch (req : Request) (_peer : Option SocketAddr) : Call SocketAddr := .handleSearch req

def webApiSearchRegister : RouteRegistry → RouteRegistry :=
  registerRoute "GET".toList "/api/search".toList "web_api_search".toList

def webApiSites (req : Request) (peer : Option SocketAddr) : Call SocketAddr :=
  .handleAddSite req peer

def webApiSitesRegister : RouteRegistry → RouteRegistry :=
  registerRoute "POST".toList "/api/sites".toList "web_api_sites".toList

/-! ## The router -/

/-- What the process keeps between requests: `ONCE` and the registry. -/
structure Web where
  once : Bool
  registry : RouteRegistry

/-- Nothing was registered yet. -/
def Web.init : Web := ⟨false, .empty⟩

/-- `register_routes_once`. -/
def registerRoutesOnce (web : Web) : Web :=
  if web.once then web
  else
    let registry := webSearchRegister (webRootRegister web.registry)
    let registry := webHealthReadyRegister (webDomainsRegister registry)
    ⟨true, webApiSitesRegister (webApiSearchRegister registry)⟩

def dispatch (req : Request) (peer : Option SocketAddr) : Call SocketAddr :=
  let path := routePath req
  if req.method = "GET".toList ∧ path = "/".toList then webRoot req peer
  else if req.method = "GET".toList ∧ path = "/search".toList then webSearch req peer
  else if req.method = "GET".toList ∧ path = "/domains".toList then webDomains req peer
  else if req.method = "GET".toList ∧ path = "/health/ready".toList then webHealthReady req peer
  else if req.method = "GET".toList ∧ path = "/api/search".toList then webApiSearch req peer
  else if req.method = "POST".toList ∧ path = "/api/sites".toList then webApiSites req peer
  else .badRequest

/-- `handle_with_peer`, built with `ext-web`. -/
def handleWithPeer (web : Web) (req : Request) (peer : Option SocketAddr) :
    Web × Call SocketAddr :=
  let web := registerRoutesOnce web
  let path := routePath req
  (web,
    if isRegistered web.registry req.method path then dispatch req peer
    else if req.method = "GET".toList ∧ path.startsWith assetsPrefix then .serveAsset path
    else .badRequest)

/-- What is left by the requests of one process, one after the other. -/
def Web.after (earlier : List (Request × Option SocketAddr)) : Web :=
  earlier.foldl (fun web request => (handleWithPeer web request.1 request.2).1) .init

/-! ## The registered routes -/

/-- The methods and paths of the handlers. -/
def routeKeys : List (Str × Str) :=
  [("GET".toList, "/".toList), ("GET".toList, "/search".toList),
    ("GET".toList, "/domains".toList), ("GET".toList, "/health/ready".toList),
    ("GET".toList, "/api/search".toList), ("POST".toList, "/api/sites".toList)]

/-- Nothing is registered before the first request, the handlers' routes after it. -/
def Web.Filled (web : Web) : Prop :=
  if web.once then ∀ k, k ∈ web.registry.keys ↔ k ∈ routeKeys else web.registry.keys = []

theorem Web.filled_init : Web.init.Filled := rfl

/-- However often it is called, the routes are registered. -/
theorem mem_keys_registerRoutesOnce {web : Web} (h : web.Filled) (k : Str × Str) :
    k ∈ (registerRoutesOnce web).registry.keys ↔ k ∈ routeKeys := by
  rw [Web.Filled] at h
  rw [registerRoutesOnce]
  split at h
  · next honce =>
    rw [if_pos honce]
    exact h k
  · next honce =>
    rw [if_neg honce]
    simp only [webRootRegister, webSearchRegister, webDomainsRegister, webHealthReadyRegister,
      webApiSearchRegister, webApiSitesRegister, mem_keys_registerRoute, h, routeKeys,
      List.mem_cons, List.not_mem_nil, false_or, or_false, or_assoc]

theorem registerRoutesOnce_once (web : Web) : (registerRoutesOnce web).once = true := by
  rw [registerRoutesOnce]
  split
  · next honce => exact honce
  · rfl

/-- A request leaves the routes registered. -/
theorem Web.Filled.handleWithPeer {web : Web} (h : web.Filled) (req : Request)
    (peer : Option SocketAddr) : (ExtWeb.handleWithPeer web req peer).1.Filled := by
  show (registerRoutesOnce web).Filled
  rw [Web.Filled, if_pos (registerRoutesOnce_once web)]
  exact mem_keys_registerRoutesOnce h

theorem Web.filled_after (earlier : List (Request × Option SocketAddr)) :
    (Web.after earlier).Filled := by
  rw [Web.after]
  induction earlier using List.reverseRecOn with
  | nil => exact Web.filled_init
  | append_singleton earlier request ih =>
    rw [List.foldl_append, List.foldl_cons, List.foldl_nil]
    exact ih.handleWithPeer request.1 request.2

/-! ## The two routers -/

theorem webSearch_eq (req : Request) (peer : Option SocketAddr) :
    webSearch req peer = searchCall req := rfl

/-- Without the assets both match on the same routes. -/
theorem handleWithPeer_eq_dispatch {req : Request} (peer : Option SocketAddr)
    (hasset : ¬ (req.method = "GET".toList ∧ (routePath req).startsWith assetsPrefix)) :
    Router.handleWithPeer req peer = dispatch req peer := by
  rw [Router.handleWithPeer, dispatch]
  simp only [hasset, if_false, webSearch_eq]
  rfl

/-- What is not registered is not dispatched. -/
theorem dispatch_of_notMem {req : Request} (peer : Option SocketAddr)
    (h : (req.method, routePath req) ∉ routeKeys) : dispatch req peer = .badRequest := by
  simp only [routeKeys, List.mem_cons, List.not_mem_nil, or_false, Prod.mk.injEq, not_or] at h
  obtain ⟨hroot, hsearch, hdomains, hready, hapi, hsites⟩ := h
  rw [dispatch, if_neg hroot, if_neg hsearch, if_neg hdomains, if_neg hready, if_neg hapi,
    if_neg hsites]

/-- No route of a handler is an asset. -/
theorem notMem_routeKeys_of_asset {method path : Str} (h : path.startsWith assetsPrefix = true) :
    (method, path) ∉ routeKeys := by
  have hroutes : ∀ k ∈ routeKeys, Str.startsWith k.2 assetsPrefix = false := by decide
  intro hmem
  have := hroutes _ hmem
  rw [h] at this
  cases this

/-- **Both routers agree.** For every request, whatever requests the process answered
before: with `ext-web` it leads to the same call. -/
theorem handleWithPeer_eq (earlier : List (Request × Option SocketAddr)) (req : Request)
    (peer : Option SocketAddr) :
    (ExtWeb.handleWithPeer (Web.after earlier) req peer).2 = Router.handleWithPeer req peer := by
  have hkeys := mem_keys_registerRoutesOnce (Web.filled_after earlier) (req.method, routePath req)
  have hreg : isRegistered (registerRoutesOnce (Web.after earlier)).registry req.method
      (routePath req) = decide ((req.method, routePath req) ∈ routeKeys) :=
    decide_eq_decide.mpr hkeys
  simp only [ExtWeb.handleWithPeer, hreg, decide_eq_true_eq]
  by_cases hasset : req.method = "GET".toList ∧ (routePath req).startsWith assetsPrefix
  · rw [if_neg (notMem_routeKeys_of_asset hasset.2), if_pos hasset,
      handleWithPeer_assets peer hasset.1 hasset.2]
  · rw [if_neg hasset, handleWithPeer_eq_dispatch peer hasset]
    split
    · rfl
    · next hmem => exact (dispatch_of_notMem peer hmem).symm

end Gurted.Router.ExtWeb
