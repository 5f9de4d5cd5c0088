import Gurted.Api.Respond
import Gurted.Client.Response

/-!
# Responses from the server to its clients

A `WireResponse` is a response in bytes, as `WireRequest` is a request. What
`make_response` writes is one, and it comes back from both readers of the clients,
however the connection cuts it.
-/

namespace Gurted.Client

open Gurted Gurted.Lib Gurted.Api Gurted.Indexing

/-! ## Responses on the wire -/

structure WireResponse where
  start : Str
  headers : List (Str × Str)
  body : Bytes

/-- The line of a header. -/
def fieldText (h : Str × Str) : Str := h.1 ++ ':' :: h.2

namespace WireResponse

def head (r : WireResponse) : Bytes := utf8 (headOf (r.start :: r.headers.map fieldText))

def encode (r : WireResponse) : Bytes := r.head ++ r.body

/-- The status number in a start line. -/
def codeOf (start : Str) : Option Nat := ((Str.splitWhitespace start)[1]?).bind Str.parseU16

/-- What the response says. -/
def decoded (r : WireResponse) (code : Nat) : ClientResponse :=
  ⟨code, r.headers.map headerSeen, r.body⟩

/-- The lines of the head stay on their lines, each header is split at its own colon, and the
number in the start line is `code`. -/
structure WellFormed (r : WireResponse) (code : Nat) : Prop where
  status : codeOf r.start = some code
  start_noCr : '\r' ∉ r.start
  name_colon : ∀ h ∈ r.headers, ':' ∉ h.1
  field_noCr : ∀ h ∈ r.headers, '\r' ∉ fieldText h

/-- The content-length is that of the body. -/
def Declares (r : WireResponse) : Prop :=
  lastLength (r.headers.map headerSeen) = some r.body.length

end WireResponse

theorem WireResponse.Declares.headers_ne_nil {r : WireResponse} (h : r.Declares) :
    r.headers ≠ [] := by
  intro hnil
  rw [WireResponse.Declares, hnil] at h
  cases h

/-! ### The head of a response -/

theorem codeOf_ne_nil {start : Str} {code : Nat} (h : WireResponse.codeOf start = some code) :
    start ≠ [] := by
  intro hnil
  rw [hnil] at h
  cases h

theorem headerOf_fieldText {h : Str × Str} (hcolon : ':' ∉ h.1) :
    headerOf (fieldText h) = some (headerSeen h) := by
  rw [headerOf, fieldText, Str.splitOnce_append hcolon]
  rfl

theorem filterMap_fieldText {hs : List (Str × Str)} (hcolon : ∀ h ∈ hs, ':' ∉ h.1) :
    (hs.map fieldText).filterMap headerOf = hs.map headerSeen := by
  rw [List.filterMap_map, ← List.filterMap_eq_map]
  exact List.filterMap_congr fun h hh => headerOf_fieldText (hcolon h hh)

section Head
variable {r : WireResponse} {code : Nat} (h : r.WellFormed code)
include h

theorem WireResponse.WellFormed.lines_noCr :
    ∀ l ∈ r.start :: r.headers.map fieldText, '\r' ∉ l := by
  intro l hl
  rcases List.mem_cons.mp hl with rfl | hl
  · exact h.start_noCr
  · obtain ⟨hd, hmem, rfl⟩ := List.mem_map.mp hl
    exact h.field_noCr hd hmem

/-- The head ends at the first CRLFCRLF, whatever follows it. -/
theorem WireResponse.WellFormed.findSub_head (t : Bytes) :
    ∃ i, findSub crlfcrlf (r.head ++ t) = some i ∧ i + 4 = r.head.length := by
  have hne : ∀ l ∈ r.start :: r.headers.map fieldText, l ≠ [] := by
    intro l hl
    rcases List.mem_cons.mp hl with rfl | hl
    · exact codeOf_ne_nil h.status
    · obtain ⟨hd, -, rfl⟩ := List.mem_map.mp hl
      simp [fieldText]
  have hfour : 4 ≤ r.head.length := four_le_headOf (List.cons_ne_nil _ _)
  exact
    ⟨_, findSub_headOf_lines (List.cons_ne_nil _ _) h.lines_noCr hne t, Nat.sub_add_cancel hfour⟩

theorem WireResponse.WellFormed.splitSub_head :
    splitSub crlf (headOf (r.start :: r.headers.map fieldText))
      = r.start :: (r.headers.map fieldText ++ [[], []]) :=
  splitSub_lines h.lines_noCr

theorem WireResponse.WellFormed.filterMap_lines :
    (r.headers.map fieldText ++ [[], []]).filterMap headerOf = r.headers.map headerSeen := by
  have hend : ([[], []] : List Str).filterMap headerOf = [] := by decide
  rw [List.filterMap_append, filterMap_fieldText h.name_colon, hend, List.append_nil]

theorem WireResponse.WellFormed.parse :
    parseResponseLikeHead r.head
      = .ok ⟨code, r.headers.map headerSeen, (lastLength (r.headers.map headerSeen)).getD 0⟩ := by
  refine parseResponseLikeHead_ok_iff.mpr ⟨_, fromUtf8_utf8 _, ?_, ?_, rfl⟩
  · rw [h.splitSub_head]
    exact h.status
  · rw [h.splitSub_head]
    exact h.filterMap_lines.symm

/-- Both readers see the headers of the response. -/
theorem WireResponse.WellFormed.headLines (body : Bytes) :
    Client.headLines (r.head ++ body)
      = some (r.start :: (r.headers.map fieldText ++ [[], []])) := by
  obtain ⟨i, hfind, hlen⟩ := h.findSub_head body
  rw [Client.headLines, hfind, Option.bind_some, hlen, List.take_left, WireResponse.head,
    fromUtf8_utf8, Option.map_some, h.splitSub_head]

theorem WireResponse.WellFormed.declaresLength (hdeclares : r.Declares) :
    DeclaresLength r.encode := by
  refine .of_lines (h.headLines r.body) ?_
  rw [headersOf_eq, List.tail_cons, h.filterMap_lines]
  exact (lastLength_isSome_iff _).mp (Option.isSome_iff_exists.mpr ⟨_, hdeclares⟩)

/-- A response that declares its body and stays within the cap is all there. -/
theorem WireResponse.WellFormed.oneShotResponse (hdeclares : r.Declares)
    (hfits : r.encode.length ≤ maxMessageBytes) :
    Client.oneShotResponse r.encode = some (r.decoded code) := by
  obtain ⟨i, hfind, hlen⟩ := h.findSub_head r.body
  have hdeclared : lastLength (r.headers.map headerSeen) = some r.body.length := hdeclares
  rw [WireResponse.encode, List.length_append] at hfits
  have hsmall := not_lt_usizeAdd hfits
  rw [WireResponse.encode, Client.oneShotResponse, hfind]
  simp only [hlen, List.take_left, List.drop_left, h.parse, hdeclared, Option.getD_some,
    if_neg hsmall, List.take_length, WireResponse.decoded]

end Head

/-! ## What the server sends -/

theorem noWs_reason (code : StatusCode) : ∀ c ∈ code.reason, Str.isWhitespace c = false := by
  cases code <;> exact Str.noWs_of_all (by decide)

theorem splitWhitespace_statusLine (code : StatusCode) :
    (Str.splitWhitespace (statusLine code))[1]? = some (Str.ofNat code.asU16) := by
  rw [statusLine_eq, Str.splitWhitespace_token_cons (by decide) (Str.noWs_of_all (by decide))
    (by decide), Str.splitWhitespace_token_cons (Str.ofNat_ne_nil _) (Str.noWs_ofNat _) (by decide)]
  rfl

theorem statusLine_noCr (code : StatusCode) : '\r' ∉ statusLine code := by
  simp only [statusLine_eq, List.mem_append, List.mem_cons, not_or]
  exact ⟨by decide, by decide, notMem_of_noWs (by decide) (Str.noWs_ofNat _), by decide,
    notMem_of_noWs (by decide) (noWs_reason code)⟩

theorem parseU16_asU16 (code : StatusCode) :
    Str.parseU16 (Str.ofNat code.asU16) = some code.asU16 :=
  Str.parseUnsigned_ofNat (by cases code <;> decide)

/-- The headers a client gets. -/
def returnedHeaders (date : Str) (r : Response) : List (Str × Str) :=
  [("server".toList, "GURT/1.0.0".toList), ("date".toList, Str.trim date)] ++ r.headers
    ++ (if hadContentType r.headers then []
        else [("content-type".toList, "application/json".toList)])
    ++ [(contentLengthName, Str.ofNat r.body.length)]

section Sent
variable {date : Str} (hdate : IsLine date) {r : Response} (hheaders : ∀ h ∈ r.headers, IsPlain h)
  (hlength : hadContentLength r.headers = false)
include hdate hheaders hlength

theorem sentHeaders_isHeader : ∀ h ∈ sentHeaders date r.headers r.body, IsHeader h := by
  intro h hh
  simp only [sentHeaders, hlength, Bool.false_eq_true, if_false, List.mem_append, List.mem_cons,
    List.not_mem_nil, or_false] at hh
  rcases hh with (((rfl | rfl) | hh) | hh) | rfl
  · decide
  · exact .withValue (by decide) hdate
  · exact (hheaders h hh).ok.isHeader
  · split at hh
    · cases hh
    · rw [List.mem_singleton.mp hh]
      decide
  · exact (headerOk_contentLength _).isHeader

omit hdate in
theorem sentHeaders_seen :
    (sentHeaders date r.headers r.body).map headerSeen = returnedHeaders date r := by
  have hserver : headerSeen ("server".toList, "GURT/1.0.0".toList)
      = ("server".toList, "GURT/1.0.0".toList) := by decide
  have hname : (Str.trim "date".toList).toAsciiLowercase = "date".toList := by decide
  have htype : headerSeen ("content-type".toList, "application/json".toList)
      = ("content-type".toList, "application/json".toList) := by decide
  have hdate : headerSeen ("date".toList, date) = ("date".toList, Str.trim date) := by
    rw [headerSeen, hname]
  rw [sentHeaders, returnedHeaders, hlength]
  simp only [List.map_append, List.map_cons, List.map_nil, map_headerSeen hheaders, hserver, hdate,
    headerSeen_contentLength, Bool.false_eq_true, if_false]
  split
  · rfl
  · rw [List.map_singleton, htype]

/-- The response as it is sent: a space stands behind each colon. -/
def sentResponse (date : Str) (r : Response) : WireResponse :=
  ⟨statusLine r.code, (sentHeaders date r.headers r.body).map fun h => (h.1, ' ' :: h.2), r.body⟩

omit hdate hheaders hlength in
theorem sentResponse_encode : (sentResponse date r).encode = r.intoBytes date := by
  rw [Response.intoBytes, makeResponse_eq, WireResponse.encode, WireResponse.head, sentResponse,
    List.map_map]
  rfl

omit hdate in
theorem sentResponse_headers :
    (sentResponse date r).headers.map headerSeen = returnedHeaders date r := by
  rw [← sentHeaders_seen hheaders hlength, sentResponse, List.map_map]
  refine List.map_congr_left fun h _ => ?_
  show headerSeen (h.1, ' ' :: h.2) = headerSeen h
  rw [headerSeen, headerSeen, Str.trim_cons_of_isWhitespace (by decide)]

theorem sentResponse_wellFormed : (sentResponse date r).WellFormed r.code.asU16 where
  status := by
    rw [WireResponse.codeOf, sentResponse, splitWhitespace_statusLine, Option.bind_some,
      parseU16_asU16]
  start_noCr := statusLine_noCr r.code
  name_colon := by
    intro h hh
    obtain ⟨hd, hmem, rfl⟩ := List.mem_map.mp hh
    exact (sentHeaders_isHeader hdate hheaders hlength hd hmem).name_colon
  field_noCr := by
    intro h hh
    obtain ⟨hd, hmem, rfl⟩ := List.mem_map.mp hh
    exact (sentHeaders_isHeader hdate hheaders hlength hd hmem).headerText_noCr

omit hdate in
theorem sentResponse_declares (hsize : r.body.length < 2 ^ 64) :
    (sentResponse date r).Declares := by
  rw [WireResponse.Declares, sentResponse_headers hheaders hlength]
  exact lastLength_contentLength _ hsize

/-- **Responses come back.** Both readers return the status number, the body and
the headers of what `make_response` wrote, however it is cut into reads. -/
theorem readers_intoBytes (hfits : (r.intoBytes date).length ≤ maxMessageBytes)
    {cs : List Bytes} (hne : ∀ c ∈ cs, c ≠ []) (hbytes : cs.flatten = r.intoBytes date)
    (idle : Nat → Bool) :
    (readResponseLike (.ofChunks cs)).1 = .ok ⟨r.code.asU16, returnedHeaders date r, r.body⟩ ∧
      (readResponse idle (.ofChunks cs)).1
        = .ok ⟨r.code.asU16, returnedHeaders date r, r.body⟩ := by
  have hwell := sentResponse_wellFormed hdate hheaders hlength
  rw [← sentResponse_encode] at hbytes hfits
  have hsize : r.body.length < 2 ^ 64 := by
    rw [WireResponse.encode, List.length_append, maxMessageBytes] at hfits
    have hle : (sentResponse date r).body.length < 2 ^ 64 := by omega
    exact hle
  have hdeclares := @sentResponse_declares date _ hheaders hlength hsize
  have hwhole := hwell.oneShotResponse hdeclares hfits
  rw [WireResponse.decoded, sentResponse_headers hheaders hlength] at hwhole
  constructor
  · refine eq_ok_of_toOption ?_
    rw [readResponseLike_toOption hne hbytes hfits, hwhole]
    rfl
  · refine eq_ok_of_toOption ?_
    rw [readResponse_toOption hne hbytes hfits (hwell.declaresLength hdeclares), hwhole]
    rfl

end Sent

/-- A body that holds CRLFCRLF and no text, behind a padded date, in three pieces. -/
theorem readers_intoBytes_cut :
    (readResponseLike (.ofChunks [
        utf8 "GURT/1.0.0 200 OK\r\nserver: GURT/1.0.0\r\ndate:  x\r".toList,
        utf8 "\nx-id: 7\r\ncontent-type: application/json\r\ncontent-length: 5\r\n\r".toList,
        [10, 13, 10, 13, 10, 255]])).1
      = .ok ⟨200, [("server".toList, "GURT/1.0.0".toList), ("date".toList, "x".toList),
          ("x-id".toList, "7".toList), ("content-type".toList, "application/json".toList),
          ("content-length".toList, "5".toList)], [13, 10, 13, 10, 255]⟩ :=
  (readers_intoBytes (show IsLine " x".toList by decide)
    (show ∀ h ∈ (⟨.ok, [("x-id".toList, "7".toList)], [13, 10, 13, 10, 255]⟩ : Response).headers,
      IsPlain h from by
        intro h hh
        rw [List.mem_singleton.mp hh]
        exact ⟨⟨by decide, by decide, by decide, by decide, by decide⟩, by decide⟩)
    (by decide) (by decide) (by decide) (by decide) fun _ => false).1

end Gurted.Client
