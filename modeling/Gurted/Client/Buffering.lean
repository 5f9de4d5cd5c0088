import Gurted.Client.DeclaredLength
import Gurted.Client.RobotsFetch
import Gurted.Client.RoundTrip

/-!
# Two messages on one connection (`gurtd/src/crawler/client.rs`)

`fetch_once` reads the reply to its handshake and then the response, each with a call of
`read_response_like` and so each with a buffer of its own. What the first call has read behind
its head is lost to the second. `fetchOnce_iff` says when the response comes back all the same.
-/

namespace Gurted.Client

open Gurted Gurted.Lib Gurted.Api Gurted.Indexing

/-! ## The end of a response -/

/-- What is lost is text at the front of the start line, and the number is still the second
word of what remains of that. -/
def Harmless (lost : Bytes) (r : WireResponse) (code : Nat) : Prop :=
  ∃ p rest, r.start = p ++ rest ∧ lost = utf8 p ∧ WireResponse.codeOf rest = some code

section Response
variable {r : WireResponse} {code : Nat} (h : r.WellFormed code) (hdeclares : r.Declares)
include h

/-- The first CRLFCRLF in the end of a response with room for the body behind it is the one
that ends the head. -/
theorem WireResponse.WellFormed.cut_head {x y : Bytes} (hcut : r.encode = x ++ y) {i : Nat}
    (hfind : findSub crlfcrlf y = some i) (hroom : i + 4 + r.body.length ≤ y.length) :
    ∃ rest, r.head = x ++ rest ∧ y = rest ++ r.body ∧ rest.length = i + 4 := by
  obtain ⟨j, hj, hlen⟩ := h.findSub_head r.body
  have hocc := (findSub_eq_some_iff.mp hfind).1.append_left x
  rw [← hcut, WireResponse.encode] at hocc
  have hge : j ≤ x.length + i := Nat.not_lt.mp fun hlt => (findSub_eq_some_iff.mp hj).2 _ hlt hocc
  have hsum := congrArg List.length hcut
  rw [WireResponse.encode, List.length_append, List.length_append] at hsum
  have hxi : x.length + (i + 4) = r.head.length := by omega
  have hhead : r.head = x ++ y.take (i + 4) := by
    have htake := congrArg (List.take r.head.length) hcut
    rw [WireResponse.encode, List.take_left, ← hxi, List.take_length_add_append] at htake
    exact htake
  refine ⟨y.take (i + 4), hhead, ?_, ?_⟩
  · rw [WireResponse.encode, hhead, List.append_assoc] at hcut
    exact (List.append_cancel_left hcut).symm
  · rw [List.length_take]
    omega

include hdeclares

/-- The end of a head that has all the headers starts in the start line. -/
theorem WireResponse.WellFormed.start_eq_append {p t : Str}
    (hcut : headOf (r.start :: r.headers.map fieldText) = p ++ t)
    (hheaders : (splitSub crlf t).tail.filterMap headerOf = r.headers.map headerSeen) :
    r.start = p ++ (splitSub crlf t).headD [] := by
  have hlf : '\r' ∉ ['\n'] := by decide
  have hsuffix : (splitSub crlf t).tail <:+ (splitSub crlf (p ++ t)).tail :=
    tail_splitSub_suffix hlf (List.suffix_append p t)
  rw [← hcut, h.splitSub_head, List.tail_cons] at hsuffix
  obtain ⟨u, hu⟩ := hsuffix
  cases u with
  | nil =>
    -- all lines behind the first are there
    have hcrlf : crlf ≠ [] := by decide
    have hwhole := join_splitSub hcrlf (p ++ t)
    rw [← hcut, h.splitSub_head, ← hu, List.headD_cons, List.tail_cons, hcut] at hwhole
    rw [List.nil_append] at hwhole
    have hsame : r.start ++ (splitSub crlf t).tail.flatMap (crlf ++ ·)
        = p ++ (splitSub crlf t).headD [] ++ (splitSub crlf t).tail.flatMap (crlf ++ ·) := by
      rw [hwhole, List.append_assoc, join_splitSub hcrlf t]
    exact List.append_cancel_right hsame
  | cons line u =>
    -- the first header is lost
    obtain ⟨first, hs, hhs⟩ := List.exists_cons_of_ne_nil hdeclares.headers_ne_nil
    have hcount := congrArg (fun ls => (ls.filterMap headerOf).length) hu
    have hend : ([[], []] : List Str).filterMap headerOf = [] := by decide
    have hline : line = fieldText first := by
      rw [hhs] at hu
      exact (List.cons.inj hu).1
    have hseen := headerOf_fieldText (h.name_colon first (hhs ▸ List.mem_cons_self))
    simp only [List.filterMap_append, filterMap_fieldText h.name_colon, hend, hheaders, hline,
      List.filterMap_cons, hseen, List.length_append, List.length_cons, List.length_nil] at hcount
    omega

/-- A response within the cap is read. -/
theorem WireResponse.WellFormed.readResponseLike_encode {cs : List Bytes}
    (hne : ∀ c ∈ cs, c ≠ []) (hcs : cs.flatten = r.encode)
    (hfits : r.encode.length ≤ maxMessageBytes) :
    (readResponseLike (.ofChunks cs)).1 = .ok (r.decoded code) := by
  apply eq_ok_of_toOption
  rw [readResponseLike_toOption hne hcs hfits, h.oneShotResponse hdeclares hfits]

/-- A harmless loss leaves the same response with a shorter start line. -/
theorem WireResponse.WellFormed.readResponseLike_of_harmless {lost : Bytes} {cs : List Bytes}
    (hne : ∀ c ∈ cs, c ≠ []) (hcut : r.encode = lost ++ cs.flatten)
    (hfits : cs.flatten.length ≤ maxMessageBytes) (hharmless : Harmless lost r code) :
    (readResponseLike (.ofChunks cs)).1 = .ok (r.decoded code) := by
  obtain ⟨p, rest, hstart, rfl, hcode⟩ := hharmless
  have hstart_noCr := h.start_noCr
  rw [hstart, List.mem_append, not_or] at hstart_noCr
  have hrest : WireResponse.WellFormed { r with start := rest } code :=
    ⟨hcode, hstart_noCr.2, h.name_colon, h.field_noCr⟩
  have hencode : r.encode = utf8 p ++ WireResponse.encode { r with start := rest } := by
    rw [WireResponse.encode, WireResponse.encode, WireResponse.head, WireResponse.head, hstart,
      ← List.append_assoc, ← utf8_append]
    simp [headOf]
  have hcs : cs.flatten = WireResponse.encode { r with start := rest } :=
    List.append_cancel_left (hcut.symm.trans hencode)
  exact hrest.readResponseLike_encode hdeclares hne hcs (hcs ▸ hfits)

/-- Where the response is read from its end, its own head is the one that is found. -/
theorem WireResponse.WellFormed.exists_text_of_read {lost : Bytes} {cs : List Bytes}
    (hne : ∀ c ∈ cs, c ≠ []) (hcut : r.encode = lost ++ cs.flatten)
    (hread : (readResponseLike (.ofChunks cs)).1 = .ok (r.decoded code)) :
    ∃ text, r.head = lost ++ utf8 text ∧ cs.flatten.length ≤ maxMessageBytes ∧
      WireResponse.codeOf ((splitSub crlf text).headD []) = some code ∧
      (splitSub crlf text).tail.filterMap headerOf = r.headers.map headerSeen := by
  obtain ⟨buf, i, s', head, hfound, hparse, hcode, hheaders⟩ := readResponseLike_ok hread
  obtain ⟨text, htext, hstatus, hfilter, -⟩ := parseResponseLikeHead_ok_iff.mp hparse
  have hrun : MessageReader.readResponseLike.run (.ofChunks cs) = .ok r.body := by
    rw [MessageReader.run, hread]
    rfl
  -- the headers say how long the body is
  have hlen : effectiveLength (buf.take (i + 4)) = some r.body.length := by
    rw [effectiveLength, htext, Option.bind_some, headersOf_eq, ← hfilter, ← hheaders]
    exact hdeclares
  have htakes : MessageReader.readResponseLike.TakesHead (buf.take (i + 4)) := ⟨head, hparse⟩
  have hfits := MessageReader.fits_of_run hfound hlen htakes hrun
  obtain ⟨-, -, -, hfind, htake, -⟩ := hfound.exists_rest
  have hbody := MessageReader.body_eq_take hne hfind (htake ▸ hlen) hrun
  have hroom : i + 4 + r.body.length ≤ cs.flatten.length := by
    have hle : i + 4 ≤ cs.flatten.length := findSub_le hfind
    have hlength := congrArg List.length hbody
    rw [List.length_take, List.length_drop] at hlength
    omega
  obtain ⟨rest, hhead, hrest, hrestlen⟩ := h.cut_head hcut hfind hroom
  have htextrest : rest = utf8 text := by
    rw [← eq_utf8_of_fromUtf8 htext, ← htake, hrest, ← hrestlen, List.take_left]
  refine ⟨text, htextrest ▸ hhead, ?_, ?_, hfilter.symm.trans hheaders.symm⟩
  · rw [hrest, List.length_append, hrestlen]
    exact hfits
  · show (statusToken (splitSub crlf text)).bind Str.parseU16 = some code
    rw [hstatus, ← hcode]
    rfl

/-- **The end of a response** is read as the response if what is lost of it is harmless and
the rest is within the cap, and otherwise not. -/
theorem WireResponse.WellFormed.readResponseLike_rest {lost : Bytes} {cs : List Bytes}
    (hne : ∀ c ∈ cs, c ≠ []) (hcut : r.encode = lost ++ cs.flatten) :
    (readResponseLike (.ofChunks cs)).1 = .ok (r.decoded code) ↔
      cs.flatten.length ≤ maxMessageBytes ∧ Harmless lost r code := by
  constructor
  · intro hread
    obtain ⟨text, hhead, hfits, hcode, hheaders⟩ := h.exists_text_of_read hdeclares hne hcut hread
    obtain ⟨p, hp, rfl⟩ := exists_of_utf8_eq_append hhead
    exact ⟨hfits, p, _, h.start_eq_append hdeclares hp hheaders, rfl, hcode⟩
  · intro hparts
    obtain ⟨hfits, hharmless⟩ := hparts
    exact h.readResponseLike_of_harmless hdeclares hne hcut hfits hharmless

end Response

/-! ## The reply before it -/

/-- A reply to the handshake: a head without body. -/
structure WireResponse.IsHello (r : WireResponse) : Prop where
  wellFormed : r.WellFormed 101
  no_body : r.body = []
  no_length : (lastLength (r.headers.map headerSeen)).getD 0 = 0

/-- What is read behind the head of the reply, before its reader can stop. -/
def overread (hello : Bytes) (cs : List Bytes) : Bytes :=
  (takeBlocks hello.length cs).1.flatten.drop hello.length

theorem length_takeBlocks {x y : Bytes} {cs : List Bytes} (h : cs.flatten = x ++ y) :
    (takeBlocks x.length cs).1.flatten.length = x.length + (overread x cs).length := by
  obtain ⟨more, hmore, -⟩ := takeBlocks_prefix h
  rw [overread, hmore, List.drop_left, List.length_append]

/-- What is overread and what is left are the message behind. -/
theorem overread_append {x y : Bytes} {cs : List Bytes} (h : cs.flatten = x ++ y) :
    y = overread x cs ++ (takeBlocks x.length cs).2.flatten := by
  obtain ⟨more, hmore, hrest⟩ := takeBlocks_prefix h
  rw [overread, hmore, List.drop_left, hrest]

/-- The header loop takes the reads up to the one that completes the head, unless these exceed
the cap. -/
theorem readUntil_takeBlocks {E : Type*} (errs : HeadErrors E) {cs : List Bytes}
    (hne : ∀ c ∈ cs, c ≠ []) {i : Nat} (hfind : findSub crlfcrlf cs.flatten = some i) :
    let p := takeBlocks (i + 4) cs
    if p.1.flatten.length ≤ maxMessageBytes then
      readUntil maxMessageBytes errs [] (.ofChunks cs) = (.ok (p.1.flatten, i), .ofChunks p.2)
    else ∃ e s', readUntil maxMessageBytes errs [] (.ofChunks cs) = (.error e, s') := by
  have hempty : findSub crlfcrlf ([] : Bytes) = none := rfl
  have hread := readHead_ofChunks hempty hne hfind
  simp only [List.nil_append, List.length_nil, Nat.sub_zero, readHead_nil_eq] at hread ⊢
  split at hread
  · next hfits =>
    rw [if_pos hfits]
    exact readUntil_ok_errs errs hread
  · next hbig =>
    rw [if_neg hbig]
    obtain ⟨res, s', hres⟩ :
        ∃ res s', readUntil maxMessageBytes errs [] (.ofChunks cs) = (res, s') :=
      ⟨_, _, rfl⟩
    cases res with
    | error e => exact ⟨e, s', hres⟩
    | ok found =>
      -- the same loop with other errors has failed
      rw [readUntil_ok_errs _ hres] at hread
      cases hread

section Hello
variable {hello : WireResponse} (hhello : hello.IsHello) {cs : List Bytes} (hne : ∀ c ∈ cs, c ≠ [])
  {y : Bytes} (hcs : cs.flatten = hello.head ++ y)
include hhello hne hcs

theorem fetchOnceHandshake_hello :
    if hello.head.length + (overread hello.head cs).length ≤ maxMessageBytes then
      fetchOnceHandshake (.ofChunks cs) = (.ok (), .ofChunks (takeBlocks hello.head.length cs).2)
    else ∃ e s', fetchOnceHandshake (.ofChunks cs) = (.error e, s') := by
  obtain ⟨i, hfind, hlen⟩ := hhello.wellFormed.findSub_head y
  rw [← hcs] at hfind
  have hloop := readUntil_takeBlocks ⟨ClientError.io, .connection, .io⟩ hne hfind
  simp only [hlen, length_takeBlocks hcs] at hloop
  split at hloop
  · next hfits =>
    obtain ⟨more, hmore, -⟩ := takeBlocks_prefix hcs
    rw [if_pos hfits, fetchOnceHandshake, readResponseLike, hloop]
    simp only [hlen, hmore, List.take_left, hhello.wellFormed.parse, hhello.no_length, if_true,
      ne_eq, not_true_eq_false, if_false]
  · next hbig =>
    obtain ⟨e, s', hfails⟩ := hloop
    rw [if_neg hbig, fetchOnceHandshake, readResponseLike, hfails]
    exact ⟨e, s', rfl⟩

end Hello

/-! ## Both messages -/

/-- The attempt gets a connection that delivers `cs`, on which nothing takes too long. The reply
to the handshake does not wait for the request. -/
structure Delivers (env : ClientEnv) (attempt : Nat) (url : Str) (hello : Bytes)
    (cs : List Bytes) : Prop where
  connected : ∃ parsed host conn before after, env.parseUrl url = some parsed ∧
    parsed.scheme = "gurt".toList ∧ parsed.host = some host ∧
    env.connect attempt host (parsed.port.getD 4878) = .ok conn ∧
    conn.handshakeTimedOut = false ∧ conn.requestTimedOut = false ∧
    conn.hello (utf8 fetchOnceRequest) = .ofChunks before ∧
    conn.answer (utf8 (requestText parsed.target host)) = .ofChunks after ∧
    cs = before ++ after ∧ hello.length ≤ before.flatten.length

section Both
variable {env : ClientEnv} {attempt : Nat} {url : Str} {hello : WireResponse} {cs : List Bytes}
  (hdelivers : Delivers env attempt url hello.head cs) (hhello : hello.IsHello)
  (hne : ∀ c ∈ cs, c ≠ []) {y : Bytes} (hcs : cs.flatten = hello.head ++ y)
include hdelivers hhello hne hcs

/-- The response is read from what the reads up to the end of the reply leave. -/
theorem fetchOnce_of_delivers :
    if hello.head.length + (overread hello.head cs).length ≤ maxMessageBytes then
      fetchOnce env attempt url
        = (readResponseLike (.ofChunks (takeBlocks hello.head.length cs).2)).1
    else ∃ e, fetchOnce env attempt url = .error e := by
  obtain ⟨parsed, host, conn, before, after, hurl, hscheme, hhost, hconn, hintime, hintime', hreply,
    hanswer, rfl, henough⟩ := hdelivers.connected
  have hne' : ∀ c ∈ before, c ≠ [] := fun c hc => hne c (List.mem_append_left after hc)
  -- the reads of the reply are among those before the request
  obtain ⟨y', hbefore⟩ : hello.head <+: before.flatten := by
    refine @List.prefix_of_prefix_length_le _ _ _ (before ++ after).flatten ?_ ?_ henough
    · exact ⟨y, hcs.symm⟩
    · exact ⟨after.flatten, List.flatten_append.symm⟩
  have htake := takeBlocks_append_right henough after
  have hover : overread hello.head (before ++ after) = overread hello.head before := by
    rw [overread, htake, overread]
  have hshake := fetchOnceHandshake_hello hhello hne' hbefore.symm
  rw [hover, htake]
  split at hshake
  · next hfits =>
    rw [if_pos hfits, fetchOnce, openRequest, hurl]
    simp only [hscheme, hhost, hconn, hintime, hintime', hreply, hanswer, hshake, ne_eq,
      not_true_eq_false, if_false, Bool.false_eq_true]
    rw [Stream.ofChunks, Stream.ofChunks, Stream.ofChunks, List.map_append]
  · next hbig =>
    obtain ⟨e, s', hfails⟩ := hshake
    rw [if_neg hbig, fetchOnce, openRequest, hurl]
    simp only [hscheme, hhost, hconn, hintime, hreply, hfails, ne_eq,
      not_true_eq_false, if_false, Bool.false_eq_true]
    exact ⟨e, rfl⟩

end Both

/-- **A response behind a handshake** comes back exactly if what is read of it together with the
reply to the handshake is harmless, and neither reader meets its cap. -/
theorem fetchOnce_iff {env : ClientEnv} {attempt : Nat} {url : Str} {hello r : WireResponse}
    {code : Nat} {cs : List Bytes} (hdelivers : Delivers env attempt url hello.head cs)
    (hhello : hello.IsHello) (hr : r.WellFormed code) (hdeclares : r.Declares)
    (hne : ∀ c ∈ cs, c ≠ []) (hcs : cs.flatten = hello.encode ++ r.encode) :
    fetchOnce env attempt url = .ok (r.decoded code) ↔
      Harmless (overread hello.head cs) r code ∧
        hello.head.length + (overread hello.head cs).length ≤ maxMessageBytes ∧
        r.encode.length ≤ (overread hello.head cs).length + maxMessageBytes := by
  rw [WireResponse.encode, hhello.no_body, List.append_nil] at hcs
  have hfetch := fetchOnce_of_delivers hdelivers hhello hne hcs
  have hrest := overread_append hcs
  have hread := hr.readResponseLike_rest hdeclares (takeBlocks_ne_nil hne _) hrest
  have hlength := congrArg List.length hrest
  rw [List.length_append] at hlength
  have hcap : (takeBlocks hello.head.length cs).2.flatten.length ≤ maxMessageBytes ↔
      r.encode.length ≤ (overread hello.head cs).length + maxMessageBytes := by omega
  split at hfetch
  · next hfits =>
    rw [hfetch, hread, hcap]
    exact ⟨fun h => ⟨h.2, hfits, h.1⟩, fun h => ⟨h.2.2, h.1⟩⟩
  · next hbig =>
    obtain ⟨e, he⟩ := hfetch
    rw [he]
    constructor
    · intro h
      cases h
    · intro h
      exact absurd h.2.1 hbig

/-! ### In three reads, and in one -/

/-- These reads are to be had before the request, and these after it. -/
def readsEnv (before after : List Bytes) : ClientEnv where
  parseUrl url :=
    if url = "gurt://a.b/".toList then
      some ⟨"gurt".toList, some "a.b".toList, none, "/".toList, none⟩
    else none
  connect _ _ _ := .ok ⟨false, fun _ => .ofChunks before, false, fun _ => .ofChunks after⟩

theorem readsEnv_delivers {hello : Bytes} {before : List Bytes}
    (h : hello.length ≤ before.flatten.length) (after : List Bytes) :
    Delivers (readsEnv before after) 0 "gurt://a.b/".toList hello (before ++ after) := by
  have hurl : (readsEnv before after).parseUrl "gurt://a.b/".toList
      = some ⟨"gurt".toList, some "a.b".toList, none, "/".toList, none⟩ := by
    simp only [readsEnv, if_true]
  exact ⟨_, _, _, before, after, hurl, rfl, rfl, rfl, rfl, rfl, rfl, rfl, rfl, h⟩

def switching : WireResponse := ⟨"GURT/1.0.0 101 SWITCHING_PROTOCOLS".toList, [], []⟩

theorem switching_isHello : switching.IsHello :=
  ⟨⟨by decide, by decide, by decide, by decide⟩, rfl, rfl⟩

def okResponse : WireResponse :=
  ⟨"GURT/1.0.0 200 OK".toList, [("content-length".toList, " 2".toList)], utf8 "ok".toList⟩

theorem okResponse_wellFormed : okResponse.WellFormed 200 :=
  ⟨by decide, by decide, by decide, by decide⟩

theorem okResponse_declares : okResponse.Declares := by
  rw [WireResponse.Declares]
  decide

/-- The head and the body arrive apart, behind a reply that arrives alone. -/
theorem fetchOnce_iff_separate :
    fetchOnce (readsEnv [switching.head] [okResponse.head, okResponse.body]) 0 "gurt://a.b/".toList
      = .ok ⟨200, [("content-length".toList, "2".toList)], utf8 "ok".toList⟩ :=
  (fetchOnce_iff (readsEnv_delivers (by decide) _) switching_isHello okResponse_wellFormed
      okResponse_declares (by decide) (by decide)).mpr
    ⟨⟨[], okResponse.start, rfl, by decide, by decide⟩, by decide, by decide⟩

/-- Everything arrives in one read, and the second reader finds nothing. -/
theorem not_fetchOnce_merged :
    ¬ ∀ (env : ClientEnv) (attempt : Nat) (url : Str) (hello r : WireResponse) (code : Nat)
        (cs : List Bytes), Delivers env attempt url hello.head cs → hello.IsHello →
        r.WellFormed code → r.Declares → (∀ c ∈ cs, c ≠ []) →
        cs.flatten = hello.encode ++ r.encode → cs.flatten.length ≤ maxMessageBytes →
        fetchOnce env attempt url = .ok (r.decoded code) := by
  intro h
  have hmerged := h _ _ _ switching okResponse 200
    _ (@readsEnv_delivers switching.head [switching.encode ++ okResponse.encode] (by decide) [])
    switching_isHello okResponse_wellFormed okResponse_declares (by decide) (by decide) (by decide)
  have hlost : fetchOnce (readsEnv [switching.encode ++ okResponse.encode] []) 0
      "gurt://a.b/".toList = .error .connection := by
    decide +kernel
  rw [hlost] at hmerged
  cases hmerged

end Gurted.Client
