import Gurted.Client.Handshake
import Gurted.Crawler.CrawlDelay
import Gurted.Crawler.RobotsBlocks

/-!
# Fetching robots.txt (`gurtd/src/crawler/client.rs`, `gurtd/src/crawler/robots.rs`)

`RobotsTxt::fetch_for_domain` on top of `fetch_with_retries`. `keepsRules_iff` says for
which responses the rules in the body are those of the result: a body without declared
length is dropped by the reader, and one odd byte anywhere makes it no text.
-/

namespace Gurted.Client

open Gurted Gurted.Lib Gurted.Api Gurted.Indexing Gurted.Crawler

/-! ## `GurtClient` -/

/-- What `fetch_once` takes from `url::Url`. -/
structure ParsedUrl where
  scheme : Str
  host : Option Str
  port : Option Nat
  path : Str
  query : Option Str
  deriving DecidableEq, Repr

/-- A connection. `hello` is what arrives for the bytes of the handshake, and `answer` what
arrives after that for the bytes of the request. Errors of the writes are ignored; only that
they take too long is not. -/
structure Conn where
  handshakeTimedOut : Bool
  hello : Bytes → Stream
  requestTimedOut : Bool
  answer : Bytes → Stream

/-- What the client meets. -/
structure ClientEnv where
  /-- `url::Url::parse`. -/
  parseUrl : Str → Option ParsedUrl
  /-- The connector, by attempt; `ClientError::Timeout` when it takes too long. -/
  connect : Nat → Str → Nat → Except ClientError Conn

/-- The path in the request. -/
def ParsedUrl.target (url : ParsedUrl) : Str :=
  url.path ++ (url.query.map fun q => '?' :: q).getD []

/-- `req`. -/
def requestText (path host : Str) : Str :=
  "GET ".toList ++ path ++ " GURT/1.0\r\nhost: ".toList ++ host ++ "\r\n\r\n".toList

/-- `fetch_once` up to the response: the connection it is read from. -/
def openRequest (env : ClientEnv) (attempt : Nat) (url : Str) : Except ClientError Stream :=
  match env.parseUrl url with
  | none => .error .invalidMessage
  | some parsed =>
      if parsed.scheme ≠ "gurt".toList then .error .invalidMessage
      else match parsed.host with
        | none => .error .invalidMessage
        | some host =>
            match env.connect attempt host (parsed.port.getD 4878) with
            | .error e => .error e
            | .ok conn =>
                if conn.handshakeTimedOut then .error .timeout
                else match fetchOnceHandshake (conn.hello (utf8 fetchOnceRequest)) with
                  | (.error e, _) => .error e
                  | (.ok (), s) =>
                      if conn.requestTimedOut then .error .timeout
                      else .ok (s ++ conn.answer (utf8 (requestText parsed.target host)))

def fetchOnce (env : ClientEnv) (attempt : Nat) (url : Str) : Except ClientError ClientResponse :=
  match openRequest env attempt url with
  | .error e => .error e
  | .ok s => (readResponseLike s).1

/-- The loop over the attempts, with `last_err`. -/
def fetchAttempts (env : ClientEnv) (url : Str) :
    Option ClientError → List Nat → Except ClientError ClientResponse
  | lastErr, [] => .error (lastErr.getD .connection)
  | _, attempt :: attempts =>
      match fetchOnce env attempt url with
      | .ok resp => .ok resp
      | .error .invalidMessage => .error .invalidMessage
      | .error e => fetchAttempts env url (some e) attempts

def fetchWithRetries (env : ClientEnv) (url : Str) (retries : Nat) :
    Except ClientError ClientResponse :=
  fetchAttempts env url none (List.range (retries + 1))

/-! ## `fetch_for_domain` -/

/-- `url`. -/
def robotsUrl (domain : Str) : Str := "gurt://".toList ++ domain ++ "/robots.txt".toList

/-- `RobotsTxt::fetch_for_domain`; the outer `none` is a panic of `RobotsTxt::parse`. -/
def fetchForDomain (env : ClientEnv) (domain : Str) : Option (Option RobotsTxt) :=
  match fetchWithRetries env (robotsUrl domain) 1 with
  | .ok resp =>
      if resp.success then (RobotsTxt.parse (robotsText resp.body)).map some else some none
  | .error _ => some none

/-! ## A response that arrives -/

/-- The request is answered with `input`, and then the connection ends: in the first attempt,
or in the second after the first has failed in a way that is tried again. -/
structure Delivered (env : ClientEnv) (domain : Str) (input : Bytes) : Prop where
  arrives : ∃ n ≤ 1,
    (∀ m < n, ∃ e, e ≠ .invalidMessage ∧ fetchOnce env m (robotsUrl domain) = .error e) ∧
    ∃ cs, openRequest env n (robotsUrl domain) = .ok (.ofChunks cs) ∧ (∀ c ∈ cs, c ≠ []) ∧
      cs.flatten = input

/-- What follows the head. -/
def afterHead (input : Bytes) : Bytes :=
  match findSub crlfcrlf input with
  | some headerEnd => input.drop (headerEnd + 4)
  | none => []

/-- The length of the body: the declared one, or all that follows the head. -/
def bodyLength (lines : List Str) (input : Bytes) : Nat :=
  (lastLength (headersOf lines)).getD (afterHead input).length

/-- `input` is a response of success within the limit, and `body` is all of its body. -/
structure Answers (input body : Bytes) : Prop where
  head : ∃ lines code, headLines input = some lines ∧
    (statusToken lines).bind Str.parseU16 = some code ∧ 200 ≤ code ∧ code < 300 ∧
    bodyLength lines input ≤ (afterHead input).length ∧
    body = (afterHead input).take (bodyLength lines input)
  fits : input.length ≤ maxMessageBytes

/-- What the reader takes for the body. -/
theorem oneShotResponse_of_answers {input body : Bytes} (h : Answers input body) :
    ∃ resp, oneShotResponse input = some resp ∧ resp.success = true ∧
      (DeclaresLength input ∧ resp.body = body ∨ ¬ DeclaresLength input ∧ resp.body = []) := by
  obtain ⟨lines, code, hlines, hcode, hge, hlt, hn, hbody⟩ := h.head
  obtain ⟨i, hfind, htext⟩ := Option.bind_eq_some_iff.mp hlines
  obtain ⟨headStr, hhead, rfl⟩ := Option.map_eq_some_iff.mp htext
  have hafter : afterHead input = input.drop (i + 4) := by rw [afterHead, hfind]
  have hparse : parseResponseLikeHead (input.take (i + 4))
      = .ok ⟨code, headersOf (splitSub crlf headStr),
          (lastLength (headersOf (splitSub crlf headStr))).getD 0⟩ :=
    parseResponseLikeHead_ok_iff.mpr ⟨headStr, hhead, hcode, headersOf_eq _, rfl⟩
  have hsuccess : ∀ headers b, ClientResponse.success ⟨code, headers, b⟩ = true := by
    intro headers b
    simp [ClientResponse.success, hge, hlt]
  have hdeclares :
      DeclaresLength input ↔ (lastLength (headersOf (splitSub crlf headStr))).isSome := by
    rw [lastLength_isSome_iff]
    exact ⟨fun hd => hd _ hlines, fun hd => .of_lines hlines hd⟩
  have hle : i + 4 ≤ input.length := findSub_le hfind
  rw [bodyLength, hafter] at hn hbody
  rw [oneShotResponse, hfind]
  simp only [hparse, hdeclares]
  cases hlast : lastLength (headersOf (splitSub crlf headStr)) with
  | some n =>
    rw [hlast, Option.getD_some] at hn hbody
    rw [List.length_drop] at hn
    have hsmall : ¬ maxMessageBytes < usizeAdd (i + 4) n :=
      not_lt_usizeAdd (by have := h.fits; omega)
    rw [Option.getD_some, if_neg hsmall]
    exact ⟨_, rfl, hsuccess _ _, .inl ⟨rfl, hbody.symm⟩⟩
  | none =>
    have hsmall : ¬ maxMessageBytes < usizeAdd (i + 4) 0 :=
      not_lt_usizeAdd (by have := h.fits; omega)
    rw [Option.getD_none, if_neg hsmall, List.take_zero]
    exact ⟨_, rfl, hsuccess _ _, .inr ⟨by simp, rfl⟩⟩

/-- The attempts come to the response that arrives. -/
theorem fetchWithRetries_of_delivered {env : ClientEnv} {domain : Str} {input : Bytes}
    (h : Delivered env domain input) (hfits : input.length ≤ maxMessageBytes)
    {resp : ClientResponse} (hresp : oneShotResponse input = some resp) :
    fetchWithRetries env (robotsUrl domain) 1 = .ok resp := by
  obtain ⟨n, hn, hbefore, cs, hopen, hne, hinput⟩ := h.arrives
  have hread := readResponseLike_toOption hne hinput hfits
  rw [hresp] at hread
  have hfetch : fetchOnce env n (robotsUrl domain) = .ok resp := by
    rw [fetchOnce, hopen]
    exact eq_ok_of_toOption hread
  have hrange : List.range (1 + 1) = [0, 1] := rfl
  rw [fetchWithRetries, hrange, fetchAttempts]
  rcases Nat.le_one_iff_eq_zero_or_eq_one.mp hn with rfl | rfl
  · rw [hfetch]
  · obtain ⟨e, he, hfirst⟩ := hbefore 0 Nat.zero_lt_one
    rw [hfirst]
    cases e with
    | invalidMessage => exact absurd rfl he
    | connection => simp only [fetchAttempts, hfetch]
    | timeout => simp only [fetchAttempts, hfetch]
    | io => simp only [fetchAttempts, hfetch]

/-- **What is fetched**: the rules of the body if its length is declared, otherwise those of
an empty file. -/
theorem fetchForDomain_of_answers {env : ClientEnv} {domain : Str} {input body : Bytes}
    (hdelivered : Delivered env domain input) (hanswers : Answers input body) :
    ∃ got, (DeclaresLength input ∧ got = body ∨ ¬ DeclaresLength input ∧ got = []) ∧
      fetchForDomain env domain = (RobotsTxt.parse (robotsText got)).map some := by
  obtain ⟨resp, hresp, hsuccess, hbody⟩ := oneShotResponse_of_answers hanswers
  refine ⟨resp.body, hbody, ?_⟩
  rw [fetchForDomain, fetchWithRetries_of_delivered hdelivered hanswers.fits hresp]
  simp only [hsuccess, if_true]

/-! ## The rules in a body -/

/-- The recognised lines of a body; a line that is no text is not one. -/
def byteDirectives (body : Bytes) : List Directive :=
  (byteLines body).filterMap fun line => (fromUtf8 line).bind directive

/-- A body that is text has the lines the parser sees. -/
theorem byteDirectives_utf8 (s : Str) : byteDirectives (utf8 s) = directives s := by
  rw [byteDirectives, byteLines_utf8, List.filterMap_map, directives]
  refine List.filterMap_congr fun line _ => ?_
  show (fromUtf8 (utf8 line)).bind directive = directive line
  rw [fromUtf8_utf8]
  rfl

/-- The patterns of a group. -/
def patterns (g : AgentGroup) : RuleKind → List Str
  | .allow => g.allow
  | .disallow => g.disallow
  | .crawlDelay => []

/-- Every `Allow` and `Disallow` line of a block is a rule of the result, for each agent of
the block. -/
def KeepsRules (result : Option (Option RobotsTxt)) (body : Bytes) : Prop :=
  ∀ b ∈ blocks (byteDirectives body), ∀ agent ∈ b.named, ∀ kind ≠ .crawlDelay,
    ∀ val ∈ b.values kind, ∃ r, result = some (some r) ∧ val ∈ patterns (r.group agent) kind

/-- The body has no `Allow` and no `Disallow` line. -/
def NoRules (body : Bytes) : Prop :=
  ∀ b ∈ blocks (byteDirectives body), ∀ kind ≠ .crawlDelay, b.values kind = []

/-- A rule of a block is in the group of each of its agents. -/
theorem mem_patterns_of_mem_block {s : Str} {r : RobotsTxt} (hr : RobotsTxt.parse s = some r)
    {b : Block} (hb : b ∈ blocks (directives s)) {agent : Str} (hagent : agent ∈ b.named)
    {kind : RuleKind} (hkind : kind ≠ .crawlDelay) {val : Str} (hval : val ∈ b.values kind) :
    val ∈ patterns (r.group agent) kind := by
  have hgiven : val ∈ (seenBlocks [] (blocks (directives s))).flatMap (blockGiven kind agent) := by
    obtain ⟨pre, post, hblocks⟩ := List.append_of_mem hb
    rw [hblocks, seenBlocks_append, List.flatMap_append]
    refine List.mem_append_right _ (List.mem_flatMap.mpr ⟨_, List.mem_cons_self .., ?_⟩)
    -- the agent is among those seen up to the block
    refine List.mem_flatMap.mpr ⟨val, hval, List.mem_replicate.mpr ⟨?_, rfl⟩⟩
    exact (List.count_pos_iff.mpr (List.mem_append_right _ hagent)).ne'
  obtain ⟨hallow, hdisallow, -⟩ := parse_group_blocks hr agent
  cases kind with
  | allow => rwa [patterns, hallow]
  | disallow => rwa [patterns, hdisallow]
  | crawlDelay => exact absurd rfl hkind

/-- An empty file has no rules. -/
theorem not_mem_patterns_empty {r : RobotsTxt} (hr : RobotsTxt.parse [] = some r) (agent val : Str)
    (kind : RuleKind) : val ∉ patterns (r.group agent) kind := by
  have hnone : blocks (directives []) = [] := rfl
  obtain ⟨hallow, hdisallow, -⟩ := parse_group_blocks hr agent
  rw [hnone] at hallow hdisallow
  cases kind with
  | allow => rw [patterns, hallow]; exact List.not_mem_nil
  | disallow => rw [patterns, hdisallow]; exact List.not_mem_nil
  | crawlDelay => exact List.not_mem_nil

/-- Where there is no rule, all are kept. -/
theorem NoRules.keepsRules {body : Bytes} (h : NoRules body) (result : Option (Option RobotsTxt)) :
    KeepsRules result body := by
  intro b hb agent _ kind hkind val hval
  rw [h b hb kind hkind] at hval
  cases hval

/-- A result without a rule keeps them only where there is none. -/
theorem keepsRules_iff_noRules {result : Option (Option RobotsTxt)} {body : Bytes}
    (h : ∀ r, result = some (some r) → ∀ agent val kind, val ∉ patterns (r.group agent) kind) :
    KeepsRules result body ↔ NoRules body := by
  constructor
  · intro hkeeps b hb kind hkind
    refine List.eq_nil_iff_forall_not_mem.mpr fun val hval => ?_
    obtain ⟨agent, hagent⟩ := List.exists_mem_of_ne_nil _ b.named_ne_nil
    obtain ⟨r, hresult, hmem⟩ := hkeeps b hb agent hagent kind hkind val hval
    exact h r hresult agent val kind hmem
  · exact fun hnone => hnone.keepsRules result

/-- From an empty file nothing is kept. -/
theorem keepsRules_empty_iff (body : Bytes) :
    KeepsRules ((RobotsTxt.parse []).map some) body ↔ NoRules body := by
  refine keepsRules_iff_noRules fun r hresult => ?_
  obtain ⟨r', hparse, heq⟩ := Option.map_eq_some_iff.mp hresult
  cases heq
  exact not_mem_patterns_empty hparse

/-- A body that is text is parsed if its delays fit. -/
theorem parse_isSome_iff_delayFits (s : Str) :
    (RobotsTxt.parse s).isSome = true ↔
      ∀ val, Directive.rule .crawlDelay val ∈ byteDirectives (utf8 s) → DelayFits val := by
  rw [parse_isSome_iff, byteDirectives_utf8]
  exact forall₂_congr fun val _ => parseCrawlDelay_isSome_iff val

/-- From a body that is text all are kept, if it can be parsed. -/
theorem keepsRules_text_iff (s : Str) :
    KeepsRules ((RobotsTxt.parse s).map some) (utf8 s) ↔
      NoRules (utf8 s) ∨ (RobotsTxt.parse s).isSome = true := by
  cases hparse : RobotsTxt.parse s with
  | none =>
    rw [Option.isSome_none, or_iff_left Bool.false_ne_true]
    exact keepsRules_iff_noRules nofun
  | some r =>
    refine iff_of_true (fun b hb agent hagent kind hkind val hval => ?_) (.inr rfl)
    rw [byteDirectives_utf8] at hb
    exact ⟨r, rfl, mem_patterns_of_mem_block hparse hb hagent hkind hval⟩

/-- **Which responses keep their rules.** For every response of success that arrives whole:
each rule of its body is a rule of the result if and only if the body has no rule, or its
length is declared, it is text from end to end, and its `Crawl-delay` values fit. -/
theorem keepsRules_iff {env : ClientEnv} {domain : Str} {input body : Bytes}
    (hdelivered : Delivered env domain input) (hanswers : Answers input body) :
    KeepsRules (fetchForDomain env domain) body ↔
      NoRules body ∨
        DeclaresLength input ∧ (fromUtf8 body).isSome = true ∧
          ∀ val, Directive.rule .crawlDelay val ∈ byteDirectives body → DelayFits val := by
  obtain ⟨got, hgot, hfetch⟩ := fetchForDomain_of_answers hdelivered hanswers
  rw [hfetch]
  rcases hgot with ⟨hdeclares, rfl⟩ | ⟨hundeclared, rfl⟩
  · cases htext : fromUtf8 got with
    | none =>
      -- one odd byte, and the text is empty
      have hempty : robotsText got = [] := by rw [robotsText, htext]; rfl
      rw [hempty, keepsRules_empty_iff]
      exact (or_iff_left fun h => Bool.false_ne_true h.2.1).symm
    | some s =>
      have hs : robotsText got = s := by rw [robotsText, htext]; rfl
      rw [hs, eq_utf8_of_fromUtf8 htext, keepsRules_text_iff, parse_isSome_iff_delayFits]
      exact or_congr_right ⟨fun h => ⟨hdeclares, rfl, h⟩, fun h => h.2.2⟩
  · have hempty : robotsText [] = [] := rfl
    rw [hempty, keepsRules_empty_iff]
    exact (or_iff_left fun h => hundeclared h.1).symm

/-! ### Two responses with the same rule -/

/-- Each attempt gets a handshake and then these bytes. -/
def servingEnv (input : Bytes) : ClientEnv where
  parseUrl url :=
    if url = robotsUrl "a.b".toList then
      some ⟨"gurt".toList, some "a.b".toList, none, "/robots.txt".toList, none⟩
    else none
  connect _ _ _ :=
    .ok ⟨false, fun _ => [.bytes (utf8 "GURT/1.0.0 101 SWITCHING_PROTOCOLS\r\n\r\n".toList)], false,
      fun _ => [.bytes input]⟩

theorem servingEnv_delivered {input : Bytes} (h : input ≠ []) :
    Delivered (servingEnv input) "a.b".toList input := by
  have hhello : fetchOnceHandshake
      [.bytes (utf8 "GURT/1.0.0 101 SWITCHING_PROTOCOLS\r\n\r\n".toList)] = (.ok (), []) := by
    decide +kernel
  refine ⟨0, Nat.zero_le 1, fun m hm => absurd hm (Nat.not_lt_zero m), [input], ?_,
    fun c hc => List.mem_singleton.mp hc ▸ h, by simp⟩
  simp only [openRequest, servingEnv, if_true, ne_eq, not_true_eq_false, if_false, hhello,
    Bool.false_eq_true]
  rfl

/-- One rule. -/
def privateFile : Str := "User-agent: *\nDisallow: /p\n".toList

def declaredResponse : Bytes :=
  utf8 ("GURT/1.0.0 200 OK\r\ncontent-length: 27\r\n\r\n".toList ++ privateFile)

def undeclaredResponse : Bytes := utf8 ("GURT/1.0.0 200 OK\r\n\r\n".toList ++ privateFile)

theorem keepsRules_iff_declared :
    KeepsRules (fetchForDomain (servingEnv declaredResponse) "a.b".toList) (utf8 privateFile) ↔
      NoRules (utf8 privateFile) ∨
        DeclaresLength declaredResponse ∧ (fromUtf8 (utf8 privateFile)).isSome = true ∧
          ∀ val, Directive.rule .crawlDelay val ∈ byteDirectives (utf8 privateFile) →
            DelayFits val :=
  keepsRules_iff (servingEnv_delivered (by decide))
    ⟨⟨["GURT/1.0.0 200 OK".toList, "content-length: 27".toList, [], []], 200, by decide, by decide,
      by decide, by decide, by decide, by decide⟩, by decide⟩

theorem undeclaredResponse_headLines :
    headLines undeclaredResponse = some ["GURT/1.0.0 200 OK".toList, [], []] := by
  decide

/-- Without a content-length nothing of the file is left. -/
theorem not_keepsRules_undeclared :
    ¬ ∀ (env : ClientEnv) (domain : Str) (input body : Bytes),
        Delivered env domain input → Answers input body →
          KeepsRules (fetchForDomain env domain) body := by
  intro h
  have hanswers : Answers undeclaredResponse (utf8 privateFile) :=
    ⟨⟨_, 200, undeclaredResponse_headLines, by decide, by decide, by decide, by decide, by decide⟩,
      by decide⟩
  have hdelivered : Delivered (servingEnv undeclaredResponse) "a.b".toList undeclaredResponse :=
    servingEnv_delivered (by decide)
  have hkeeps := h _ _ _ _ hdelivered hanswers
  have hblocks : blocks (byteDirectives (utf8 privateFile))
      = [⟨[['*']], [(.disallow, "/p".toList)]⟩] := by
    rw [byteDirectives_utf8]
    decide
  obtain ⟨got, ⟨hdeclares, -⟩ | ⟨-, rfl⟩, hfetch⟩ := fetchForDomain_of_answers hdelivered hanswers
  · have hnone : headersOf ["GURT/1.0.0 200 OK".toList, [], []] = [] := by decide
    obtain ⟨header, hheader, -⟩ := hdeclares _ undeclaredResponse_headLines
    rw [hnone] at hheader
    cases hheader
  · have hempty : robotsText [] = [] := rfl
    rw [hfetch, hempty, keepsRules_empty_iff] at hkeeps
    have hlost := hkeeps ⟨[['*']], [(.disallow, "/p".toList)]⟩
      (by rw [hblocks]; exact List.mem_singleton_self _) .disallow (by decide)
    exact absurd hlost (by decide)

end Gurted.Client
