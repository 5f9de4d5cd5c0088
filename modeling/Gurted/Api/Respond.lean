import Gurted.Api.Wire

/-!
# Writing a response (`make_response` in `gurt-api/src/http_like.rs`)

`makeResponse_eq` is the shape of what it writes: a head of a status line and the
headers `sentHeaders`, and the body behind it.
-/

namespace Gurted.Api

open Gurted Gurted.Lib

/-- The reason text of the status line. -/
def StatusCode.reason : StatusCode → Str
  | .ok => "OK".toList
  | .badRequest => "BAD_REQUEST".toList
  | .tooManyRequests => "TOO_MANY_REQUESTS".toList
  | .requestEntityTooLarge => "TOO_LARGE".toList
  | .internalServerError => "INTERNAL_SERVER_ERROR".toList

/-- One turn of the loop over the headers: what it appends. -/
def extendHeader (out : Bytes) (h : Str × Str) : Bytes :=
  out ++ utf8 h.1 ++ utf8 ": ".toList ++ utf8 h.2 ++ utf8 "\r\n".toList

/-- `had_ct` after the loop. -/
def hadContentType (headers : List (Str × Str)) : Bool :=
  headers.any fun h => Str.eqIgnoreAsciiCase h.1 "content-type".toList

/-- `had_cl` after the loop. -/
def hadContentLength (headers : List (Str × Str)) : Bool :=
  headers.any fun h => Str.eqIgnoreAsciiCase h.1 "content-length".toList

/-- `make_response`; `date` is what `httpdate::fmt_http_date` makes of the time. -/
def makeResponse (date : Str) (code : StatusCode) (headers : List (Str × Str)) (body : Bytes) :
    Bytes :=
  let out := utf8 ("GURT/1.0.0 ".toList ++ Str.ofNat code.asU16 ++ " ".toList ++ code.reason
    ++ "\r\nserver: GURT/1.0.0\r\ndate: ".toList ++ date ++ "\r\n".toList)
  let out := headers.foldl extendHeader out
  let out := if hadContentType headers then out
    else out ++ utf8 "content-type: application/json\r\n".toList
  let out := if hadContentLength headers then out
    else out ++ utf8 ("content-length: ".toList ++ Str.ofNat body.length ++ "\r\n".toList)
  out ++ utf8 "\r\n".toList ++ body

/-- `Response::into_bytes`. -/
def Response.intoBytes (date : Str) (r : Response) : Bytes :=
  makeResponse date r.code r.headers r.body

/-- `make_empty_response`. -/
def makeEmptyResponse (date : Str) (code : StatusCode) : Str :=
  (fromUtf8 (makeResponse date code [] [])).getD []

/-! ## The shape of a response -/

def statusLine (code : StatusCode) : Str :=
  "GURT/1.0.0".toList ++ ' ' :: (Str.ofNat code.asU16 ++ ' ' :: code.reason)

-- `rw [statusLine]` would evaluate the text
theorem statusLine_eq (code : StatusCode) :
    statusLine code
      = "GURT/1.0.0".toList ++ ' ' :: (Str.ofNat code.asU16 ++ ' ' :: code.reason) := rfl

/-- The headers a response goes out with. -/
def sentHeaders (date : Str) (headers : List (Str × Str)) (body : Bytes) : List (Str × Str) :=
  [("server".toList, "GURT/1.0.0".toList), ("date".toList, date)] ++ headers
    ++ (if hadContentType headers then []
        else [("content-type".toList, "application/json".toList)])
    ++ (if hadContentLength headers then [] else [(contentLengthName, Str.ofNat body.length)])

theorem foldl_extendHeader (headers : List (Str × Str)) (s : Str) :
    headers.foldl extendHeader (utf8 s)
      = utf8 (s ++ (headers.map WireRequest.headerText).flatMap (· ++ crlf)) := by
  refine foldl_headerText (fun s h => ?_) headers s
  simp only [extendHeader, WireRequest.headerText, utf8_append, utf8_cons, List.append_assoc]
  rfl

/-- A line for a header that is only there without one of the caller's. -/
theorem ite_append_line (b : Bool) (s : Str) (h : Str × Str) :
    (if b then utf8 s else utf8 s ++ utf8 (WireRequest.headerText h ++ crlf))
      = utf8 (s ++ ((if b then [] else [h]).map WireRequest.headerText).flatMap (· ++ crlf)) := by
  cases b with
  | true => simp
  | false => simp

/-- **What `make_response` writes.** -/
theorem makeResponse_eq (date : Str) (code : StatusCode) (headers : List (Str × Str))
    (body : Bytes) :
    makeResponse date code headers body
      = utf8 (headOf (statusLine code ::
          (sentHeaders date headers body).map WireRequest.headerText)) ++ body := by
  have hstart : ∀ number reason : Str, "GURT/1.0.0 ".toList ++ number ++ " ".toList ++ reason
      ++ "\r\nserver: GURT/1.0.0\r\ndate: ".toList ++ date ++ "\r\n".toList
      = ("GURT/1.0.0".toList ++ ' ' :: (number ++ ' ' :: reason) ++ crlf)
        ++ ([("server".toList, "GURT/1.0.0".toList), ("date".toList, date)].map
          WireRequest.headerText).flatMap (· ++ crlf) := by
    intro number reason
    simp [WireRequest.headerText, crlf]
  have htype : "content-type: application/json\r\n".toList
      = WireRequest.headerText ("content-type".toList, "application/json".toList) ++ crlf := by
    simp [WireRequest.headerText, crlf]
  simp only [makeResponse]
  rw [hstart, htype, contentLengthLine_eq, crlf_eq, foldl_extendHeader, ite_append_line,
    ite_append_line, ← utf8_append, ← statusLine_eq]
  simp only [headOf, sentHeaders, List.map_cons, List.map_append, List.flatMap_cons,
    List.flatMap_append, List.append_assoc]

/-- The bytes of `make_empty_response` are text, so its default is never taken. -/
theorem makeEmptyResponse_eq (date : Str) (code : StatusCode) :
    makeEmptyResponse date code
      = headOf (statusLine code :: (sentHeaders date [] []).map WireRequest.headerText) := by
  rw [makeEmptyResponse, makeResponse_eq, List.append_nil, fromUtf8_utf8, Option.getD_some]

end Gurted.Api
