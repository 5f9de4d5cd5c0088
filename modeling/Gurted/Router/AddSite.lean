import Mathlib.Data.Finset.Insert
import Gurted.Api.HttpLike
import Gurted.Router.RateLimiter
import Gurted.Router.Submission
import Gurted.Std.Json
import Gurted.Std.Net
import Gurted.Std.Num

/-!
# `POST /api/sites` (`handle_add_site` of `gurtd/src/router/api.rs`)

The handler with its limiter, over any sequence of requests. `served_exactly` says what a
client gets in any such history, and what is taken over for indexing: it depends on the
bodies, the peers and the instants, and on nothing else that a request carries.
-/

namespace Gurted.Router

open Gurted Gurted.Api

/-! ## The handler -/

/-- `std::net::SocketAddr`. -/
structure SocketAddr where
  ip : IpAddr
  port : UInt16
  deriving DecidableEq, Repr

/-- What the handler uses of `serde_json` and of the Unicode tables. -/
structure AddSiteEnv where
  /-- `serde_json::from_slice` -/
  fromSlice : Bytes → Option Json
  /-- `str::to_lowercase` -/
  toLowercase : Str → Str
  /-- `serde_json::to_vec` of the answer for a domain. -/
  acceptedBody : Str → Bytes

/-- `RATE_LIMITER` from `GURT_SUBMIT_RATE` and `GURT_SUBMIT_WINDOW`. -/
def rateLimiter (rate window : Option Str) : IpRateLimiter IpAddr :=
  .new ((rate.bind Str.parseUsize).getD 5) ((window.bind Str.parseU64).getD 60 * 10 ^ 9)

/-- The state the handler shares with other calls, and what it has handed on. -/
structure AddSiteState where
  limiter : IpRateLimiter IpAddr
  /-- `SUBMITTED_SITES` -/
  submitted : Finset Str
  /-- The domains of the spawned `upsert_domain_submission` tasks, oldest first. -/
  upserts : List Str
  /-- The domains given to `enqueue_domain`. -/
  enqueued : List Str

/-- `get_header`. -/
def getHeader (req : Request) (name : Str) : Option Str :=
  (req.headers.find? fun h => Str.eqIgnoreAsciiCase h.1 name.toAsciiLowercase).map Prod.snd

/-- The address in `x-forwarded-for`: the first of its list. -/
def forwardedFor (req : Request) : Option IpAddr :=
  ((getHeader req "x-forwarded-for".toList).bind fun s => (Str.split ',' s).head?).bind
    fun s => IpAddr.parse s.trim

/-- The domain a body names: a string at `domain`, or else at `url`. -/
def namedDomain (v : Json) : Str :=
  match (v.get "domain".toList).bind Json.asStr with
  | some d => d
  | none =>
      match (v.get "url".toList).bind Json.asStr with
      | some u =>
          if u.startsWith "gurt://".toList then
            ((Str.split '/' (u.drop "gurt://".toList.length)).head?).getD []
          else u
      | none => []

/-- `extract_domain_from_body`. -/
def extractDomainFromBody (env : AddSiteEnv) (body : Bytes) : Option Str :=
  (env.fromSlice body).bind fun v =>
    let domain := env.toLowercase (namedDomain v).trim
    if isValidDomain domain then some domain else none

/-- An answer without headers and body. -/
def emptyResponse (code : StatusCode) : Response := ⟨code, [], []⟩

/-- The part after the limiter. -/
def submitSite (env : AddSiteEnv) (s : AddSiteState) (req : Request) : Response × AddSiteState :=
  let domain := (extractDomainFromBody env req.body).getD []
  if domain.isEmpty then (emptyResponse .badRequest, s)
  else
    (⟨.ok, [("content-type".toList, "application/json".toList)], env.acceptedBody domain⟩,
      { s with
        submitted := insert domain s.submitted
        upserts := s.upserts ++ [domain]
        enqueued := s.enqueued ++ [domain] })

/-- `handle_add_site` at the instant the limiter reads. -/
def handleAddSite (env : AddSiteEnv) (s : AddSiteState) (req : Request)
    (peer : Option SocketAddr) (now : Nat) : Response × AddSiteState :=
  -- the peer goes before the header
  match peer.map (·.ip) <|> forwardedFor req with
  | some ip =>
      let (allowed, limiter) := s.limiter.allow ⟨ip, now⟩
      if allowed then submitSite env { s with limiter := limiter } req
      else (emptyResponse .tooManyRequests, { s with limiter := limiter })
  | none => submitSite env s req

/-! ## Histories of requests -/

/-- A request of a connection, whose peer is known. -/
structure SiteRequest where
  req : Request
  peer : SocketAddr
  now : Nat
  deriving DecidableEq, Repr

/-- The call of the limiter a request makes. -/
def SiteRequest.attempt (v : SiteRequest) : Attempt IpAddr := ⟨v.peer.ip, v.now⟩

/-- The answers to some requests, and the state after them. -/
def serveSites (env : AddSiteEnv) (s : AddSiteState) :
    List SiteRequest → List Response × AddSiteState
  | [] => ([], s)
  | v :: vs =>
      let (resp, s) := handleAddSite env s v.req (some v.peer) v.now
      let (resps, s) := serveSites env s vs
      (resp :: resps, s)

/-- A server that has taken nothing. -/
def AddSiteState.new (limiter : IpRateLimiter IpAddr) : AddSiteState := ⟨limiter, ∅, [], []⟩

/-- The requests that are let through, oldest first: those before which fewer than `max` of
the same IP within the window were let through. -/
def letThrough (max window : Nat) (vs : List SiteRequest) : List SiteRequest :=
  vs.foldl (fun through v =>
    if (through.countP fun e => InWindow window v.attempt e.attempt) < max then through ++ [v]
    else through) []

/-- What the body of a request that is let through is answered. -/
def bodyAnswer (env : AddSiteEnv) (body : Bytes) : Response :=
  match extractDomainFromBody env body with
  | some d => ⟨.ok, [("content-type".toList, "application/json".toList)], env.acceptedBody d⟩
  | none => emptyResponse .badRequest

/-- What a request is answered after others. -/
def answerAfter (env : AddSiteEnv) (max window : Nat) (before : List SiteRequest)
    (v : SiteRequest) : Response :=
  if ((letThrough max window before).countP fun e => InWindow window v.attempt e.attempt) < max then
    bodyAnswer env v.req.body
  else emptyResponse .tooManyRequests

/-! ## One request -/

theorem isEmpty_of_isValidDomain {d : Str} (h : isValidDomain d = true) : d.isEmpty = false := by
  simpa using (normal_of_isValidDomain h).ne_nil

/-- Only a valid domain is extracted. -/
theorem isValidDomain_of_extract {env : AddSiteEnv} {body : Bytes} {d : Str}
    (h : extractDomainFromBody env body = some d) : isValidDomain d = true := by
  rw [extractDomainFromBody, Option.bind_eq_some_iff] at h
  obtain ⟨v, -, h⟩ := h
  simp only [Option.ite_none_right_eq_some, Option.some.injEq] at h
  obtain ⟨hvalid, rfl⟩ := h
  exact hvalid

/-- The domain that a body is taken over with, if any. -/
def AddSiteState.take (s : AddSiteState) (domain : Option Str) : AddSiteState :=
  { s with
    submitted := domain.elim s.submitted fun d => insert d s.submitted
    upserts := s.upserts ++ domain.toList
    enqueued := s.enqueued ++ domain.toList }

theorem submitSite_eq (env : AddSiteEnv) (s : AddSiteState) (req : Request) :
    submitSite env s req
      = (bodyAnswer env req.body, s.take (extractDomainFromBody env req.body)) := by
  rw [submitSite, bodyAnswer]
  cases hd : extractDomainFromBody env req.body with
  | none => simp [AddSiteState.take]
  | some d =>
    have hne := isEmpty_of_isValidDomain (isValidDomain_of_extract hd)
    simp [AddSiteState.take, hne]

/-- A known peer settles which limit counts, whatever the headers say. -/
theorem handleAddSite_eq (env : AddSiteEnv) (s : AddSiteState) (v : SiteRequest) :
    handleAddSite env s v.req (some v.peer) v.now
      = if (s.limiter.allow v.attempt).1 then
          (bodyAnswer env v.req.body,
            { s with limiter := (s.limiter.allow v.attempt).2 }.take
              (extractDomainFromBody env v.req.body))
        else (emptyResponse .tooManyRequests,
            { s with limiter := (s.limiter.allow v.attempt).2 }) := by
  have hip : ((some v.peer).map (·.ip) <|> forwardedFor v.req) = some v.peer.ip := rfl
  rw [handleAddSite, hip]
  by_cases hallowed : (s.limiter.allow ⟨v.peer.ip, v.now⟩).1 = true
  · simp only [SiteRequest.attempt, hallowed, if_true, submitSite_eq]
  · simp only [SiteRequest.attempt, hallowed]
    rfl

/-! ## Whole histories -/

theorem serveSites_concat (env : AddSiteEnv) (s : AddSiteState) (vs : List SiteRequest)
    (v : SiteRequest) :
    serveSites env s (vs ++ [v])
      = ((serveSites env s vs).1
            ++ [(handleAddSite env (serveSites env s vs).2 v.req (some v.peer) v.now).1],
          (handleAddSite env (serveSites env s vs).2 v.req (some v.peer) v.now).2) := by
  induction vs generalizing s with
  | nil => rfl
  | cons u vs ih =>
    rw [List.cons_append, serveSites, serveSites]
    simp only [ih, List.cons_append]

theorem letThrough_concat (max window : Nat) (vs : List SiteRequest) (v : SiteRequest) :
    letThrough max window (vs ++ [v])
      = if ((letThrough max window vs).countP fun e => InWindow window v.attempt e.attempt) < max
        then letThrough max window vs ++ [v] else letThrough max window vs := by
  rw [letThrough, List.foldl_append]
  rfl

section Histories
variable {env : AddSiteEnv} {max window : Nat} {vs : List SiteRequest}

/-- What the handler comes to after some requests. -/
structure SitesServed (env : AddSiteEnv) (max window : Nat) (vs : List SiteRequest)
    (out : List Response × AddSiteState) : Prop where
  limiter : out.2.limiter = (IpRateLimiter.new max window).after (vs.map SiteRequest.attempt)
  through : (letThrough max window vs).map SiteRequest.attempt
    = accepted max window (vs.map SiteRequest.attempt)
  length : out.1.length = vs.length
  answers : ∀ pre v post, vs = pre ++ v :: post →
    out.1[pre.length]? = some (answerAfter env max window pre v)
  taken : out.2.enqueued
    = (letThrough max window vs).filterMap fun v => extractDomainFromBody env v.req.body
  upserts : out.2.upserts = out.2.enqueued
  submitted : ∀ d, d ∈ out.2.submitted ↔ d ∈ out.2.enqueued

/-- The limiter lets a request through if and only if fewer than `max` are in its window. -/
theorem SitesServed.allow_iff {out : List Response × AddSiteState}
    (h : SitesServed env max window vs out)
    {v : SiteRequest} (hsorted : (vs ++ [v]).Pairwise (·.now ≤ ·.now)) :
    (out.2.limiter.allow v.attempt).1 = true ↔
      ((letThrough max window vs).countP fun e => InWindow window v.attempt e.attempt) < max := by
  have hattempts : ((vs.map SiteRequest.attempt) ++ [v.attempt]).Pairwise (·.now ≤ ·.now) := by
    have hmap : (vs.map SiteRequest.attempt) ++ [v.attempt]
        = (vs ++ [v]).map SiteRequest.attempt := by simp
    rw [hmap, List.pairwise_map]
    exact hsorted
  have hcount : ((letThrough max window vs).countP fun e => InWindow window v.attempt e.attempt)
      = (accepted max window (vs.map SiteRequest.attempt)).countP
          fun e => InWindow window v.attempt e := by
    rw [← h.through, List.countP_map]
    rfl
  rw [hcount, h.limiter]
  exact allowed_iff hattempts

/-- One more answer. -/
theorem answers_concat {out : List Response} {v : SiteRequest} {resp : Response}
    (hlen : out.length = vs.length)
    (h : ∀ pre v post, vs = pre ++ v :: post →
      out[pre.length]? = some (answerAfter env max window pre v))
    (hresp : resp = answerAfter env max window vs v) (pre : List SiteRequest) (u : SiteRequest)
    (post : List SiteRequest) (heq : vs ++ [v] = pre ++ u :: post) :
    (out ++ [resp])[pre.length]? = some (answerAfter env max window pre u) := by
  rcases List.eq_nil_or_concat post with rfl | ⟨post', w, rfl⟩
  · obtain ⟨rfl, hlast⟩ := List.append_inj' heq rfl
    cases hlast
    rw [List.getElem?_append_right (by omega), hlen, Nat.sub_self, hresp]
    rfl
  · rw [List.concat_eq_append, ← List.cons_append, ← List.append_assoc] at heq
    obtain ⟨rfl, -⟩ := List.append_inj' heq rfl
    have hlt : pre.length < out.length := by
      rw [hlen, List.length_append, List.length_cons]
      omega
    rw [List.getElem?_append_left hlt]
    exact h pre u post' rfl

theorem served_serveSites (hsorted : vs.Pairwise (·.now ≤ ·.now)) :
    SitesServed env max window vs (serveSites env (.new (.new max window)) vs) := by
  induction vs using List.reverseRecOn with
  | nil =>
    refine ⟨rfl, rfl, rfl, fun pre v post h => ?_, rfl, rfl, fun d => ?_⟩
    · cases pre <;> cases h
    · simp [serveSites, AddSiteState.new]
  | append_singleton vs v ih =>
    have h := ih (List.pairwise_append.mp hsorted).1
    have hallow := h.allow_iff hsorted
    have hlimiter : ((serveSites env (.new (.new max window)) vs).2.limiter.allow v.attempt).2
        = (IpRateLimiter.new max window).after ((vs ++ [v]).map SiteRequest.attempt) := by
      rw [List.map_append, after_append, ← h.limiter]
      rfl
    have hallowed : allowed max window (vs.map SiteRequest.attempt) v.attempt
        = ((serveSites env (.new (.new max window)) vs).2.limiter.allow v.attempt).1 := by
      rw [allowed, ← h.limiter]
    rw [serveSites_concat, handleAddSite_eq]
    split
    · next hpass =>
      have hless := hallow.mp hpass
      have hthrough : letThrough max window (vs ++ [v]) = letThrough max window vs ++ [v] := by
        rw [letThrough_concat, if_pos hless]
      refine ⟨hlimiter, ?_, by simp [h.length], ?_, ?_, ?_, fun d => ?_⟩
      · rw [hthrough, List.map_append, List.map_append, h.through, List.map_singleton,
          accepted_concat, hallowed, if_pos hpass]
      · refine answers_concat h.length h.answers ?_
        rw [answerAfter, if_pos hless]
      · have hone : [v].filterMap (fun v => extractDomainFromBody env v.req.body)
            = (extractDomainFromBody env v.req.body).toList := by
          cases hd : extractDomainFromBody env v.req.body <;> simp [hd]
        rw [hthrough, List.filterMap_append, ← h.taken, hone]
        rfl
      · show _ ++ _ = _ ++ _
        rw [h.upserts]
      · have hold := h.submitted d
        show d ∈ (extractDomainFromBody env v.req.body).elim _ _ ↔ d ∈ _ ++ _
        cases extractDomainFromBody env v.req.body with
        | none => simpa using hold
        | some e =>
          simp only [Option.elim_some, Option.toList_some, List.mem_append, List.mem_singleton,
            Finset.mem_insert]
          rw [hold, or_comm]
    · next hfull =>
      have hmax := fun hless => hfull (hallow.mpr hless)
      have hthrough : letThrough max window (vs ++ [v]) = letThrough max window vs := by
        rw [letThrough_concat, if_neg hmax]
      refine ⟨hlimiter, ?_, by simp [h.length], ?_, by rw [hthrough]; exact h.taken, h.upserts,
        h.submitted⟩
      · rw [hthrough, h.through, List.map_append, List.map_singleton, accepted_concat, hallowed,
          if_neg hfull, List.append_nil]
      · refine answers_concat h.length h.answers ?_
        rw [answerAfter, if_neg hmax]

/-- **What clients of the endpoint get.** For every limit and window and every sequence of
requests whose clock does not go back: a request is answered `TooManyRequests` exactly if
`max` requests of its peer were let through within the window before it, and else by its body
alone; what is taken over are the domains of those let through, in order and valid; and no
interval as long as the window lets more than `max` requests of one IP through. -/
theorem served_exactly (env : AddSiteEnv) (max window : Nat) {vs : List SiteRequest}
    (hsorted : vs.Pairwise (·.now ≤ ·.now)) :
    let out := serveSites env (.new (.new max window)) vs
    (∀ pre v post, vs = pre ++ v :: post →
      out.1[pre.length]? = some (answerAfter env max window pre v)) ∧
    out.2.enqueued
      = ((letThrough max window vs).filterMap fun v => extractDomainFromBody env v.req.body) ∧
    out.2.upserts = out.2.enqueued ∧ (∀ d, d ∈ out.2.submitted ↔ d ∈ out.2.enqueued) ∧
    (∀ d ∈ out.2.enqueued, isValidDomain d = true) ∧
    ∀ ip start, ((letThrough max window vs).countP
      fun v => InInterval window ip start v.attempt) ≤ max := by
  have h : SitesServed env max window vs _ := served_serveSites hsorted
  refine ⟨h.answers, h.taken, h.upserts, h.submitted, fun d hd => ?_, fun ip start => ?_⟩
  · rw [h.taken] at hd
    obtain ⟨v, -, hv⟩ := List.mem_filterMap.mp hd
    exact isValidDomain_of_extract hv
  · have hattempts : (vs.map SiteRequest.attempt).Pairwise (·.now ≤ ·.now) :=
      List.pairwise_map.mpr hsorted
    have hle : ((accepted max window (vs.map SiteRequest.attempt)).countP
        fun e => InInterval window ip start e) ≤ max := interval_le hattempts ip start
    rw [← h.through, List.countP_map] at hle
    exact hle

end Histories

/-- A parser that knows one body. -/
def oneBody : AddSiteEnv where
  fromSlice body :=
    if body = utf8 "\x7b\"domain\":\"A.b \"\x7d".toList then
      some (.object [("domain".toList, .string "A.b ".toList)])
    else none
  toLowercase := Str.toAsciiLowercase
  acceptedBody d :=
    utf8 ("\x7b\"domain\":\"".toList ++ d ++ "\",\"status\":\"accepted\"\x7d".toList)

/-- Two requests of one client, the second with another address in its header. -/
def forged : List SiteRequest :=
  let body := utf8 "\x7b\"domain\":\"A.b \"\x7d".toList
  let peer : SocketAddr := ⟨.v6 #v[0, 0, 0, 0, 0, 0, 0, 1], 4000⟩
  [⟨⟨"POST".toList, "/api/sites".toList, [], body⟩, peer, 0⟩,
    ⟨⟨"POST".toList, "/api/sites".toList, [("x-forwarded-for".toList, "10.0.0.2".toList)], body⟩,
      peer, 5⟩]

/-- One request a minute. -/
theorem served_exactly_forged :
    let window := 60 * 10 ^ 9
    let out := serveSites oneBody (.new (rateLimiter (some "1".toList) none)) forged
    (∀ pre v post, forged = pre ++ v :: post →
      out.1[pre.length]? = some (answerAfter oneBody 1 window pre v)) ∧
    out.2.enqueued
      = ((letThrough 1 window forged).filterMap
          fun v => extractDomainFromBody oneBody v.req.body) ∧
    out.2.upserts = out.2.enqueued ∧ (∀ d, d ∈ out.2.submitted ↔ d ∈ out.2.enqueued) ∧
    (∀ d ∈ out.2.enqueued, isValidDomain d = true) ∧
    ∀ ip start, ((letThrough 1 window forged).countP
      fun v => InInterval window ip start v.attempt) ≤ 1 := by
  have hlimiter : rateLimiter (some "1".toList) none = .new 1 (60 * 10 ^ 9) := rfl
  rw [hlimiter]
  exact served_exactly oneBody 1 (60 * 10 ^ 9) (by simp [forged])

end Gurted.Router
