import Gurted.Api.OneShot

/-!
# Writing a request (`send_request_with_body` in `gurtd/src/indexing/dns.rs`)

The DNS requests are the only ones of the repository with a body. What
`send_request_with_body` writes is what `read_request` reads, however the
connection cuts it.
-/

namespace Gurted.Indexing

open Gurted Gurted.Lib Gurted.Api

/-- One turn of the loop over the extra headers. -/
def pushHeader (req : Str) (h : Str × Str) : Str :=
  req ++ h.1 ++ ": ".toList ++ h.2 ++ "\r\n".toList

/-- The test for a content-length among the extra headers. -/
def givesLength (extraHeaders : List (Str × Str)) : Bool :=
  extraHeaders.any fun h => Str.eqIgnoreAsciiCase h.1 "content-length".toList

/-- What `send_request_with_body` writes to its stream. -/
def sendRequestWithBody (host path method : Str) (extraHeaders : List (Str × Str)) (body : Bytes) :
    Bytes :=
  let req := method ++ " ".toList ++ path ++ " GURT/1.0.0\r\nhost: ".toList ++ host
    ++ "\r\n".toList
  let req := extraHeaders.foldl pushHeader req
  let req := if givesLength extraHeaders then req
    else req ++ ("content-length: ".toList ++ Str.ofNat body.length ++ "\r\n".toList)
  utf8 (req ++ "\r\n".toList) ++ body

/-! ## The shape of the request -/

/-- The headers the request goes out with. -/
def requestHeaders (host : Str) (extraHeaders : List (Str × Str)) (body : Bytes) :
    List (Str × Str) :=
  ("host".toList, host) :: extraHeaders
    ++ (if givesLength extraHeaders then [] else [(contentLengthName, Str.ofNat body.length)])

/-- The same request in the terms of the wire format. -/
def wireRequest (host path method : Str) (extraHeaders : List (Str × Str)) (body : Bytes) :
    WireRequest :=
  ⟨method, path, "GURT/1.0.0".toList, requestHeaders host extraHeaders body, body⟩

theorem foldl_pushHeader (headers : List (Str × Str)) (req : Str) :
    headers.foldl pushHeader req
      = req ++ (headers.map WireRequest.headerText).flatMap (· ++ crlf) := by
  have hpush : ∀ s h, pushHeader (id s) h = id (s ++ (WireRequest.headerText h ++ crlf)) := by
    intro s h
    simp [pushHeader, WireRequest.headerText, crlf]
  exact foldl_headerText hpush headers req

/-- **What `send_request_with_body` writes.** -/
theorem sendRequestWithBody_eq (host path method : Str) (extraHeaders : List (Str × Str))
    (body : Bytes) :
    sendRequestWithBody host path method extraHeaders body
      = (wireRequest host path method extraHeaders body).encode := by
  have hstart : method ++ " ".toList ++ path ++ " GURT/1.0.0\r\nhost: ".toList ++ host
      ++ "\r\n".toList
      = method ++ ' ' :: (path ++ ' ' :: "GURT/1.0.0".toList) ++ crlf
        ++ (WireRequest.headerText ("host".toList, host) ++ crlf) := by
    simp [WireRequest.headerText, crlf]
  simp only [sendRequestWithBody]
  rw [hstart, contentLengthLine_eq, crlf_eq, foldl_pushHeader, WireRequest.encode,
    WireRequest.headText]
  cases hgiven : givesLength extraHeaders with
  | true =>
    simp only [WireRequest.lines, WireRequest.startLine, wireRequest, requestHeaders, hgiven,
      if_true, List.map_cons, List.flatMap_cons, List.append_assoc, List.append_nil,
      List.cons_append]
  | false =>
    simp only [WireRequest.lines, WireRequest.startLine, wireRequest, requestHeaders, hgiven,
      Bool.false_eq_true, if_false, List.map_cons, List.map_append, List.map_nil,
      List.flatMap_cons, List.flatMap_append, List.flatMap_nil, List.append_assoc,
      List.append_nil, List.cons_append]

/-! ## Requests come back -/

section Sent
variable {host path method : Str} {extraHeaders : List (Str × Str)} {body : Bytes}
  (hmethod : IsToken method) (hpath : IsToken path) (hhost : IsLine host)
  (hextra : ∀ h ∈ extraHeaders, IsPlain h) (hlength : givesLength extraHeaders = false)
include hmethod hpath hhost hextra hlength

omit hmethod hpath in
theorem requestHeaders_isHeader : ∀ h ∈ requestHeaders host extraHeaders body, IsHeader h := by
  intro h hh
  simp only [requestHeaders, hlength, Bool.false_eq_true, if_false, List.mem_append, List.mem_cons,
    List.not_mem_nil, or_false] at hh
  rcases hh with (rfl | hh) | rfl
  · exact .withValue (by decide) hhost
  · exact (hextra h hh).ok.isHeader
  · exact (headerOk_contentLength _).isHeader

omit hmethod hpath hhost in
theorem requestHeaders_seen :
    (requestHeaders host extraHeaders body).map headerSeen
      = ("host".toList, Str.trim host) :: extraHeaders
        ++ [(contentLengthName, Str.ofNat body.length)] := by
  have hname : (Str.trim "host".toList).toAsciiLowercase = "host".toList := by decide
  have hseen : headerSeen ("host".toList, host) = ("host".toList, Str.trim host) := by
    rw [headerSeen, hname]
  rw [requestHeaders, hlength]
  simp only [List.map_append, List.map_cons, List.map_nil, map_headerSeen hextra, hseen,
    headerSeen_contentLength, Bool.false_eq_true, if_false]

/-- **Requests come back.** `read_request` returns the method, the path, the headers
and the body of what `send_request_with_body` wrote, however it is cut into reads. A
host comes back trimmed, so one without padding comes back as it was. -/
theorem readRequest_sendRequestWithBody
    (hfits : (sendRequestWithBody host path method extraHeaders body).length ≤ maxMessageBytes)
    {cs : List Bytes} (hne : ∀ c ∈ cs, c ≠ [])
    (hbytes : cs.flatten = sendRequestWithBody host path method extraHeaders body) :
    (readRequest (.ofChunks cs)).1
      = .ok ⟨method, path, ("host".toList, Str.trim host) :: extraHeaders
          ++ [("content-length".toList, Str.ofNat body.length)], body⟩ := by
  rw [sendRequestWithBody_eq] at hfits hbytes
  obtain ⟨ts, hwords⟩ :
      ∃ ts, Str.splitWhitespace (wireRequest host path method extraHeaders body).startLine
        = method :: path :: ts := splitWhitespace_startLine hmethod hpath
  have hversion : ∀ c ∈ "GURT/1.0.0".toList, Str.isWhitespace c = false :=
    Str.noWs_of_all (by decide)
  have hstart : '\r' ∉ (wireRequest host path method extraHeaders body).startLine :=
    WireRequest.startLine_noCr hmethod hpath hversion
  have hisHeader : ∀ h ∈ requestHeaders host extraHeaders body, IsHeader h :=
    requestHeaders_isHeader hhost hextra hlength
  have hsize : body.length < 2 ^ 64 := by
    rw [WireRequest.encode, List.length_append, maxMessageBytes] at hfits
    have hbody : (wireRequest host path method extraHeaders body).body = body := rfl
    rw [hbody] at hfits
    omega
  have hdeclared : lastLength ((requestHeaders host extraHeaders body).map headerSeen)
      = some body.length := by
    rw [requestHeaders_seen hextra hlength]
    exact lastLength_contentLength _ hsize
  rw [readRequest_whole hne hbytes hfits]
  have hwhole := oneShot_headOf hstart hwords hmethod.ne_nil hpath.ne_nil hisHeader hdeclared hfits
  rw [requestHeaders_seen hextra hlength] at hwhole
  exact hwhole

end Sent

/-- A body that starts with CRLFCRLF, in two pieces. -/
theorem readRequest_sendRequestWithBody_cut :
    (readRequest (.ofChunks [utf8 "POST /resolve GURT/1.0.0\r\nhost: dns.web\r\nx-id: 7\r".toList,
        utf8 "\ncontent-length: 5\r\n\r\n\r\n\r\n\x7b".toList])).1
      = .ok ⟨"POST".toList, "/resolve".toList, [("host".toList, "dns.web".toList),
          ("x-id".toList, "7".toList), ("content-length".toList, "5".toList)],
          [13, 10, 13, 10, 123]⟩ :=
  readRequest_sendRequestWithBody (show IsToken "POST".toList from
      ⟨by decide, Str.noWs_of_all (by decide)⟩)
    (show IsToken "/resolve".toList from ⟨by decide, Str.noWs_of_all (by decide)⟩)
    (show IsLine "dns.web".toList by decide)
    (show ∀ h ∈ [("x-id".toList, "7".toList)], IsPlain h from by
      intro h hh
      rw [List.mem_singleton.mp hh]
      exact ⟨⟨by decide, by decide, by decide, by decide, by decide⟩, by decide⟩)
    (by decide) (show (sendRequestWithBody _ _ _ _ [13, 10, 13, 10, 123]).length ≤ _ by decide)
    (by decide) (by decide)

end Gurted.Indexing
