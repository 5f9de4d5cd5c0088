import Gurted.Client.RobotsFetch
import Gurted.Dialogue.Safety
import Gurted.Indexing.Shown

/-!
# From the answer of a router to a hit

The jobs of the worker fetch their pages over connections to servers of this kind.
`shown_served` follows a hit back to the connection on which its page was fetched, and to the
answer the router gave there: whatever fails on the way, a search shows nothing else.
-/

namespace Gurted.Dialogue

open Gurted Gurted.Lib Gurted.Api Gurted.Query Gurted.Index Gurted.Client Gurted.Indexing

/-! ## Which answers are indexed -/

/-- The router calls its answer HTML. -/
def DeclaresHtml (resp : Response) : Prop :=
  ∃ ct, headerValue resp.headers "content-type".toList = some ct ∧
    ct.toAsciiLowercase.contains "text/html".toList = true

theorem headerValue_isSome (headers : List (Str × Str)) :
    (headerValue headers "content-type".toList).isSome = hadContentType headers := by
  rw [headerValue, Option.isSome_map, Bool.eq_iff_iff, List.find?_isSome, hadContentType,
    List.any_eq_true]

theorem headerValue_append (headers more : List (Str × Str)) (name : Str) :
    headerValue (headers ++ more) name = (headerValue headers name).or (headerValue more name) := by
  rw [headerValue, List.find?_append, Option.map_or]
  rfl

/-- A client looks at the content type of the router, and at `application/json` where there
is none. -/
theorem headerValue_returnedHeaders (date : Str) (resp : Response) :
    headerValue (returnedHeaders date resp) "content-type".toList
      = (headerValue resp.headers "content-type".toList).or (some "application/json".toList) := by
  have hfirst : headerValue [("server".toList, "GURT/1.0.0".toList), ("date".toList, Str.trim date)]
      "content-type".toList = none := rfl
  have hlast : headerValue [(contentLengthName, Str.ofNat resp.body.length)]
      "content-type".toList = none := rfl
  have hsome := headerValue_isSome resp.headers
  simp only [returnedHeaders, headerValue_append, hfirst, hlast, Option.none_or, Option.or_none]
  cases hvalue : headerValue resp.headers "content-type".toList with
  | none =>
    rw [hvalue] at hsome
    rw [← hsome]
    rfl
  | some ct => rfl

theorem isHtml_seen (date : Str) (resp : Response) :
    isHtml (seen date resp).headers = true ↔ DeclaresHtml resp := by
  rw [isHtml, seen, headerValue_returnedHeaders, DeclaresHtml]
  cases headerValue resp.headers "content-type".toList with
  | none =>
    constructor
    · intro h
      exact absurd h (by decide)
    · intro h
      obtain ⟨ct, hct, -⟩ := h
      cases hct
  | some ct => simp

/-- The only status of a router that is a success. -/
theorem success_seen (date : Str) (resp : Response) :
    (seen date resp).success = true ↔ resp.code = .ok := by
  show (decide (200 ≤ resp.code.asU16) && decide (resp.code.asU16 < 300)) = true ↔ resp.code = .ok
  cases resp.code <;> decide

/-! ## Fetches of a crawl -/

/-- `format_request_path`. -/
def formatRequestPath (url : ParsedUrl) : Str :=
  (if url.path.isEmpty then "/".toList else url.path) ++ (url.query.map fun q => '?' :: q).getD []

/-- What `fetch_gurt` takes from the URL. -/
structure Fetch.Asks (x : Fetch) (url : ParsedUrl) : Prop where
  host : url.host = some x.host
  port : x.port = url.port.getD defaultPort
  path : x.path = formatRequestPath url

/-- A run of the two sides, up to some point. -/
structure Conversation where
  fetch : Fetch
  events : List Event
  connection : Connection

/-- `fetch_gurt` has returned the response in it. -/
def Conversation.Returns (v : Conversation) (got : ClientResponse) : Prop :=
  v.connection.client = .finished (.ok got)

/-- The router got its request in it and no other, and has answered. -/
def Conversation.Answers (v : Conversation) (date : Str) (resp : Response) : Prop :=
  v.connection.handled = [⟨v.fetch.request.toRequest, date, some resp⟩]

section Crawl
variable (parse : Str → Option ParsedUrl)

/-- It is a run of the two sides for the URL, in which the router sends what can be sent. -/
structure Conversation.For (v : Conversation) (url : Str) : Prop where
  asks : ∃ parsed, parse url = some parsed ∧ v.fetch.Asks parsed
  ok : v.fetch.Ok
  run : (fetchSystem v.fetch).Run v.events v.connection
  sends : ∀ a ∈ v.events, a.Sends

/-- A job with the conversations in which it has fetched its pages. -/
structure Crawl (lower : Str → Str) where
  job : Job Anyhow lower
  talk : Str → Conversation
  fetched : ∀ url ∈ collectCandidateUrls job.env.sitemap job.domain, ∀ got,
    job.env.fetch url = .ok got → (talk url).For parse url ∧ (talk url).Returns got

inductive CrawlTurn (lower : Str → Str) where
  | crawl (c : Crawl parse lower)
  | reload

variable {parse}

/-- What happens to the engine. -/
def CrawlTurn.turn {lower : Str → Str} : CrawlTurn parse lower → Turn Anyhow lower
  | .crawl c => .job c.job
  | .reload => .reload

/-- A page that is a success was answered by the router, in the conversation that fetched it. -/
theorem Conversation.For.answers {v : Conversation} {url : Str} (h : v.For parse url)
    {got : ClientResponse} (hreturns : v.Returns got) (hsuccess : got.success = true) :
    ∃ date resp, v.Answers date resp ∧ got = seen date resp := by
  have hclient := (h.run.invariant (inv_inductive h.ok) h.sends).client
  rw [show v.connection.client = _ from hreturns] at hclient
  rcases hclient.2 with ⟨date, resp, hhandled, rfl⟩ | ⟨-, -, date, rfl⟩
  · exact ⟨date, resp, hhandled, rfl⟩
  · -- a server that could not read does not answer with a success
    rw [success_seen] at hsuccess
    cases hsuccess

/-! ## Hits -/

variable {lower : Str → Str} {U : CharTables} {S : Type*} [LinearOrder S]

/-- A hit is one of the documents a search sees. -/
theorem exists_of_mem_search {score : List Clause → IndexDocument → S} {e : Engine}
    {query : ParsedQuery} {page size : Nat} {hit : SearchHit S}
    (h : hit ∈ e.search U score query page size) :
    ∃ p : S × IndexDocument, p.2 ∈ e.visible ∧ hit = hitOf p := by
  simp only [Engine.search] at h
  split at h
  · cases h
  · split at h
    · cases h
    · obtain ⟨p, hp, rfl⟩ := List.mem_map.mp h
      exact ⟨p, (mem_topDocs U hp).1, rfl⟩

/-- **What a search shows was served.** For every history of jobs and reloads whose pages were
fetched over connections of this kind, and every query: each hit is a candidate of a job, and in
the conversation in which this job has fetched it the router got the request for the URL and has
answered it with `200` and as HTML; the title of the hit is that of this answer. -/
theorem shown_served (score : List Clause → IndexDocument → S)
    (turns : List (CrawlTurn parse lower)) (query : ParsedQuery) (page size : Nat) :
    ∀ hit ∈ (afterTurns (turns.map CrawlTurn.turn)).search U score query page size,
      ∃ c, .crawl c ∈ turns ∧
        hit.url ∈ collectCandidateUrls c.job.env.sitemap c.job.domain ∧
        (c.talk hit.url).For parse hit.url ∧
        ∃ date resp, (c.talk hit.url).Answers date resp ∧ resp.code = .ok ∧ DeclaresHtml resp ∧
          c.job.env.urlHost hit.url = .ok (some hit.domain) ∧
          hit.title = titleOf (bodyText resp.body) hit.domain := by
  intro hit hhit
  obtain ⟨p, hvisible, rfl⟩ := exists_of_mem_search hhit
  rw [(holds_afterTurns (turns.map CrawlTurn.turn)).visible] at hvisible
  obtain ⟨job, hjob, url, hurl, got, domain, hfetch, hsuccess, hhtml, hhost, -, hdoc⟩ :=
    fetchedBy_of_mem_shownPages hvisible
  obtain ⟨turn, hturn, heq⟩ := List.mem_map.mp hjob
  cases turn with
  | reload => cases heq
  | crawl c =>
    cases heq
    obtain ⟨hfor, hreturns⟩ := c.fetched url hurl got hfetch
    obtain ⟨date, resp, hanswers, rfl⟩ := hfor.answers hreturns hsuccess
    rw [hitOf_eq, hdoc]
    exact ⟨c, hturn, hurl, hfor, date, resp, hanswers, (success_seen date resp).mp hsuccess,
      (isHtml_seen date resp).mp hhtml, hhost, rfl⟩

end Crawl

def rootFetch : Fetch where
  host := "a.b".toList
  port := 4878
  path := "/".toList
  ua := "gurtd/0.1".toList
  date := someDate
  idle := fun _ => false

theorem rootFetch_ok : rootFetch.Ok where
  host := ⟨by decide, Str.noWs_of_all (by decide)⟩
  path := ⟨by decide, Str.noWs_of_all (by decide)⟩
  ua := by decide
  date := httpDate_someDate
  handshake_fits := by decide +kernel
  request_fits := by decide +kernel

def rootRun : List Event :=
  [.serverReads 60, .serverReplies, .clientReads 150, .clientReads 3, .clientReturns, .tls true,
    .serverReads 97, .serverAnswers someDate (some somePage), .clientReads 129, .clientReturns]

theorem rootRun_sends : ∀ a ∈ rootRun, a.Sends := by
  intro a ha
  simp only [rootRun, List.mem_cons, List.not_mem_nil, or_false] at ha
  rcases ha with rfl | rfl | rfl | rfl | rfl | rfl | rfl | rfl | rfl | rfl <;>
    first
      | trivial
      | exact ⟨httpDate_someDate, fun resp hresp => Option.some.inj hresp ▸ sendable_somePage⟩

def rootTalk : Conversation where
  fetch := rootFetch
  events := rootRun
  connection := ⟨.finished (.ok (seen someDate somePage)), .closed, [], [],
    [⟨rootFetch.request.toRequest, someDate, some somePage⟩]⟩

def rootUrl : Str := "gurt://a.b/".toList

def parseRoot (url : Str) : Option ParsedUrl :=
  if url = rootUrl then some ⟨"gurt".toList, some "a.b".toList, none, "/".toList, none⟩ else none

theorem rootTalk_for : rootTalk.For parseRoot rootUrl where
  asks := ⟨_, rfl, rfl, rfl, rfl⟩
  ok := rootFetch_ok
  run := Lts.run_of_foldlM (by decide +kernel)
  sends := rootRun_sends

/-- A site with one page. -/
def rootCrawl : Crawl parseRoot Str.toAsciiLowercase where
  job :=
    { domain := "a.b".toList
      table := waitingTable
      env :=
        { fetch := fun url => if url = rootUrl then .ok (seen someDate somePage) else .error .io
          urlHost := fun _ => .ok (some "a.b".toList)
          now := fun _ => 0
          add := fun _ => .ok ()
          sitemap := .error .io
          commit := .ok ()
          refresh := .ok ()
          update := fun _ => .ok () }
      takes := fun _ => true }
  talk := fun _ => rootTalk
  fetched := by
    intro url _ got hgot
    simp only at hgot
    split at hgot
    · next heq =>
      cases hgot
      rw [heq]
      exact ⟨rootTalk_for, rfl⟩
    · cases hgot

theorem shown_served_root :
    ((afterTurns ([CrawlTurn.crawl rootCrawl].map CrawlTurn.turn)).search .latin1 (fun _ _ => 0)
        (parseQuery "b".toList) 1 10).length = 1 ∧
      ∀ hit ∈ (afterTurns ([CrawlTurn.crawl rootCrawl].map CrawlTurn.turn)).search .latin1
          (fun _ _ => 0) (parseQuery "b".toList) 1 10,
        ∃ c, CrawlTurn.crawl c ∈ [CrawlTurn.crawl rootCrawl] ∧
          hit.url ∈ collectCandidateUrls c.job.env.sitemap c.job.domain ∧
          (c.talk hit.url).For parseRoot hit.url ∧
          ∃ date resp, (c.talk hit.url).Answers date resp ∧ resp.code = .ok ∧ DeclaresHtml resp ∧
            c.job.env.urlHost hit.url = .ok (some hit.domain) ∧
            hit.title = titleOf (bodyText resp.body) hit.domain :=
  ⟨by decide +kernel, shown_served (fun _ _ => 0) [.crawl rootCrawl] (parseQuery "b".toList) 1 10⟩

end Gurted.Dialogue
