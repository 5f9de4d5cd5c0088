import Gurted.Dialogue.Fetch

/-!
# The messages of a fetch

The two requests of the client and the two replies of the server, each with the call
that takes it.
-/

namespace Gurted.Dialogue

open Gurted Gurted.Lib Gurted.Api Gurted.Client Gurted.Indexing Gurted.Server

namespace Fetch

/-- The request of `send_request`. -/
def request (x : Fetch) : WireRequest where
  method := "GET".toList
  path := x.path
  version := "GURT/1.0.0".toList
  headers := [("host".toList, x.hostHeader), ("user-agent".toList, "gurtd/0.1".toList),
    ("accept".toList, "text/html, */*".toList), ("connection".toList, "close".toList)]
  body := []

theorem requestBytes_eq (x : Fetch) : x.requestBytes = x.request.encode := by
  have htext : x.sendRequest = x.request.headText := by
    simp [sendRequest, request, WireRequest.headText, WireRequest.lines, WireRequest.startLine,
      WireRequest.headerText, crlf]
  rw [requestBytes, htext, WireRequest.encode]
  simp [request]

theorem requestBytes_ne_nil (x : Fetch) : x.requestBytes ≠ [] := by
  intro hnil
  have hfour := x.request.four_le_headText
  rw [requestBytes_eq, WireRequest.encode, List.append_eq_nil_iff] at hnil
  rw [hnil.1] at hfour
  exact absurd hfour (by decide)

/-- The server closes after it. -/
theorem request_closes (x : Fetch) : closeConnection x.request.toRequest = true := by
  simp only [closeConnection, request, WireRequest.toRequest, List.map_cons, List.any_cons]
  simp only [Bool.or_eq_true]
  exact .inr (.inr (.inr (.inl (by decide))))

/-- What the URL gives is a host and a path without white space; the user agent stays on
its line; both requests are within the limits of the server. -/
structure Ok (x : Fetch) : Prop where
  host : IsToken x.host
  path : IsToken x.path
  ua : IsLine x.ua
  date : HttpDate x.date
  handshake_fits : x.handshakeBytes.length ≤ maxHandshakeBytes
  request_fits : x.requestBytes.length ≤ maxMessageBytes

variable {x : Fetch} (hx : x.Ok)
include hx

theorem Ok.hostHeader_noWs : ∀ c ∈ x.hostHeader, Str.isWhitespace c = false := by
  intro c hc
  rw [hostHeader] at hc
  split at hc
  · rcases List.mem_append.mp hc with hc | hc
    · rcases List.mem_append.mp hc with hc | hc
      · exact hx.host.noWs c hc
      · rw [List.mem_singleton.mp hc]
        decide
    · exact Str.noWs_ofNat _ c hc
  · exact hx.host.noWs c hc

theorem Ok.hostHeader_headerOk : HeaderOk ("host".toList, x.hostHeader) where
  name_trim := show Str.trim "host".toList = "host".toList by decide
  name_colon := show ':' ∉ "host".toList by decide
  name_line := show IsLine "host".toList by decide
  value_trim := Str.trim_of_noWs hx.hostHeader_noWs
  value_line := ⟨notMem_of_noWs (by decide) hx.hostHeader_noWs,
    notMem_of_noWs (by decide) hx.hostHeader_noWs⟩

theorem Ok.request_wellFormed : x.request.WellFormed where
  method := show IsToken "GET".toList from ⟨by decide, Str.noWs_of_all (by decide)⟩
  path := hx.path
  version := show ∀ c ∈ "GURT/1.0.0".toList, Str.isWhitespace c = false from
    Str.noWs_of_all (by decide)
  headers := by
    intro h hh
    simp only [request, List.mem_cons, List.not_mem_nil, or_false] at hh
    rcases hh with rfl | rfl | rfl | rfl
    · exact hx.hostHeader_headerOk
    · exact ⟨by decide, by decide, by decide, by decide, by decide⟩
    · exact ⟨by decide, by decide, by decide, by decide, by decide⟩
    · exact ⟨by decide, by decide, by decide, by decide, by decide⟩
  framed := .inl ⟨rfl, rfl⟩
  fits := by
    rw [← requestBytes_eq]
    exact hx.request_fits

theorem Ok.ua_header : ∀ h ∈ [("host".toList, x.host), ("user-agent".toList, x.ua)], IsHeader h :=
  requestHeaders_isHeader
    ⟨notMem_of_noWs (by decide) hx.host.noWs, notMem_of_noWs (by decide) hx.host.noWs⟩ hx.ua

/-! ## The calls of the server -/

theorem Ok.takes_handshake :
    Takes (readAndRespondHandshake x.date) x.handshakeBytes (.ok x.replyBytes) := by
  have hfits := hx.handshake_fits
  rw [handshakeBytes, performHandshakeRequest_eq] at hfits ⊢
  exact takes_readAndRespondHandshake ⟨by decide, Str.noWs_of_all (by decide)⟩ hx.ua_header x.date
    rfl hfits

theorem Ok.breaks_handshake :
    Breaks (readAndRespondHandshake x.date) x.handshakeBytes .io := by
  have hfits := hx.handshake_fits
  rw [handshakeBytes, performHandshakeRequest_eq] at hfits ⊢
  exact breaks_readAndRespondHandshake ⟨by decide, Str.noWs_of_all (by decide)⟩ hx.ua_header x.date
    hfits

theorem Ok.takes_request : Takes readRequest x.requestBytes (.ok x.request.toRequest) := by
  rw [requestBytes_eq]
  exact takes_readRequest hx.request_wellFormed

theorem Ok.breaks_request : Breaks readRequest x.requestBytes .internalServerError := by
  rw [requestBytes_eq]
  exact breaks_readRequest hx.request_wellFormed rfl

end Fetch

/-! ## Responses -/

/-- A response that comes back: its headers are plain, none of them is a content-length,
and with the date of its time it is within the limit. -/
structure Sendable (date : Str) (resp : Response) : Prop where
  httpDate : HttpDate date
  headers : ∀ h ∈ resp.headers, IsPlain h
  length : hadContentLength resp.headers = false
  fits : (resp.intoBytes date).length ≤ maxMessageBytes

/-- What a client makes of a response. -/
def seen (date : Str) (resp : Response) : ClientResponse :=
  ⟨resp.code.asU16, returnedHeaders date resp, resp.body⟩

/-- The response without a body that `read_request` failed with. -/
def refusal (code : StatusCode) : Response := ⟨code, [], []⟩

theorem utf8_makeEmptyResponse (date : Str) (code : StatusCode) :
    utf8 (makeEmptyResponse date code) = (refusal code).intoBytes date := by
  rw [makeEmptyResponse_eq, Response.intoBytes, makeResponse_eq, refusal, List.append_nil]

theorem length_refusal (date : Str) (code : StatusCode) :
    ((refusal code).intoBytes date).length ≤ 300 + (utf8 date).length := by
  have hempty : ((refusal code).intoBytes []).length ≤ 300 := by
    cases code <;> decide +kernel
  have hlength : ((refusal code).intoBytes date).length
      = ((refusal code).intoBytes []).length + (utf8 date).length := by
    simp only [Response.intoBytes, refusal, makeResponse, List.foldl_nil, hadContentType,
      hadContentLength, List.any_nil, Bool.false_eq_true, if_false, utf8_append, List.length_append,
      utf8_nil, List.length_nil]
    omega
  omega

theorem sendable_refusal {date : Str} (hdate : HttpDate date) (code : StatusCode) :
    Sendable date (refusal code) where
  httpDate := hdate
  headers := by
    intro h hh
    cases hh
  length := rfl
  fits := by
    have hlength := length_refusal date code
    rw [hdate.length] at hlength
    rw [maxMessageBytes]
    omega

namespace Sendable
variable {date : Str} {resp : Response} (h : Sendable date resp)
include h

theorem declares : (sentResponse date resp).Declares := by
  have hfits := h.fits
  rw [← sentResponse_encode, WireResponse.encode, List.length_append, maxMessageBytes] at hfits
  have hsize : (sentResponse date resp).body.length < 2 ^ 64 := by omega
  exact sentResponse_declares h.headers h.length hsize

theorem decoded : (sentResponse date resp).decoded resp.code.asU16 = seen date resp := by
  rw [WireResponse.decoded, sentResponse_headers h.headers h.length]
  rfl

theorem takes (idle : Nat → Bool) :
    Takes (readResponse idle) (resp.intoBytes date) (.ok (seen date resp)) := by
  have hfits := h.fits
  rw [← sentResponse_encode] at hfits ⊢
  rw [← h.decoded]
  exact takes_readResponse (sentResponse_wellFormed h.httpDate.line h.headers h.length) h.declares
    hfits
    idle

theorem breaks (idle : Nat → Bool) : Breaks (readResponse idle) (resp.intoBytes date) .io := by
  have hfits := h.fits
  rw [← sentResponse_encode] at hfits ⊢
  exact breaks_readResponse (sentResponse_wellFormed h.httpDate.line h.headers h.length) h.declares
    hfits idle

end Sendable

end Gurted.Dialogue
