import Gurted.Std.Utf8
import Gurted.Std.Num
import Gurted.Api.Status

/-!
# Reading a request (`gurt-api/src/http_like.rs`)

A connection is modelled by what its successive reads return. `read_request` is
its header loop, the parse of the head and its body loop, each under the name of
what it does; the connection that is left after a call is part of the result, so
that a second call on the same connection can be stated.
-/

namespace Gurted.Api

open Gurted Gurted.Lib

/-! ## Messages -/

structure Request where
  method : Str
  path : Str
  headers : List (Str × Str)
  body : Bytes
  deriving DecidableEq, Repr

/-- `Request::query`: the part of the path after the first `?`. -/
def Request.query (req : Request) : Option Str := (Str.splitOnce '?' req.path).map Prod.snd

structure Response where
  code : StatusCode
  headers : List (Str × Str)
  body : Bytes
  deriving DecidableEq, Repr

/-! ## The connection -/

/-- What one `stream.read` returns: some bytes (no more than the buffer it was
offered), or an I/O error. -/
inductive Arrival where
  | bytes (bs : Bytes)
  | ioError
  deriving DecidableEq, Repr

/-- The results of the reads still to come, in order. After the last one the
peer has closed the connection and every read returns 0 bytes. -/
abbrev Stream := List Arrival

/-- The bytes the connection still has to deliver. -/
def Stream.unread (s : Stream) : Nat :=
  (s.map fun | .bytes bs => bs.length | .ioError => 0).sum

/-! ## `read_request` -/

/-- `b"\r\n\r\n"`. -/
def crlfcrlf : Bytes := [13, 10, 13, 10]

/-- `"\r\n"`. -/
def crlf : Str := ['\r', '\n']

/-- The header loop: read until the buffer holds CRLFCRLF, scanning only from
three bytes before what was last appended. Returns the buffer and the position
of the delimiter in it. -/
def readHead (buf : Bytes) (searchFrom : Nat) : Stream → Except StatusCode (Bytes × Nat) × Stream
  | [] => (.error .badRequest, [])
  | .ioError :: s => (.error .internalServerError, s)
  | .bytes c :: s =>
      if c.isEmpty then (.error .badRequest, s)
      else if maxMessageBytes < (buf ++ c).length then (.error .requestEntityTooLarge, s)
      else
        match findSub crlfcrlf ((buf ++ c).drop (searchFrom - 3)) with
        | some rel => (.ok (buf ++ c, searchFrom - 3 + rel), s)
        | none => readHead (buf ++ c) (buf.length + c.length) s

/-- What the lines of a head say. -/
structure Head where
  method : Str
  path : Str
  headers : List (Str × Str)
  contentLength : Nat
  deriving DecidableEq, Repr

def contentLengthName : Str := "content-length".toList

/-- One turn of the loop over the header lines: the headers pushed so far and
the content length seen last. -/
def headerLine (acc : List (Str × Str) × Nat) (line : Str) : List (Str × Str) × Nat :=
  if line.isEmpty then acc
  else match Str.splitOnce ':' line with
    | none => acc
    | some (nameRaw, valueRaw) =>
        let name := (Str.trim nameRaw).toAsciiLowercase
        let value := Str.trim valueRaw
        (acc.1 ++ [(name, value)],
          if name = contentLengthName then (Str.parseUsize value).getD acc.2 else acc.2)

/-- The parse of the head, CRLFCRLF included. -/
def parseHead (head : Bytes) : Except StatusCode Head :=
  match fromUtf8 head with
  | none => .error .badRequest
  | some headStr =>
      let lines := splitSub crlf headStr
      let sp := Str.splitWhitespace (lines.headD [])
      let method := sp.headD []
      let path := sp.tail.headD []
      if method.isEmpty || path.isEmpty then .error .badRequest
      else
        let acc := lines.tail.foldl headerLine ([], 0)
        .ok ⟨method, path, acc.1, acc.2⟩

/-- The body loop: read until `contentLength` bytes are there or the peer stops
sending. `headLen` is `header_end + 4`. -/
def readBody (headLen contentLength : Nat) (body : Bytes) (s : Stream) :
    Except StatusCode Bytes × Stream :=
  if contentLength ≤ body.length then (.ok body, s)
  else match s with
    | [] => (.ok body, [])
    | .ioError :: s' => (.error .internalServerError, s')
    | .bytes c :: s' =>
        -- the peer has stopped sending: the body stays short
        if c.isEmpty then (.ok body, s')
        else match enforceMaxMessageSize (headLen + (body ++ c).length) with
          | .error _ => (.error .requestEntityTooLarge, s')
          | .ok () => readBody headLen contentLength (body ++ c) s'

/-- `read_request`, with the connection it leaves behind. Bytes it has read past
the end of the message are not part of what it leaves. -/
def readRequest (s : Stream) : Except StatusCode Request × Stream :=
  match readHead [] 0 s with
  | (.error e, s') => (.error e, s')
  | (.ok (buf, headerEnd), s') =>
      let rest := buf.drop (headerEnd + 4)
      match parseHead (buf.take (headerEnd + 4)) with
      | .error e => (.error e, s')
      | .ok h =>
          -- what is in `rest` is dropped here
          if h.contentLength = 0 then (.ok ⟨h.method, h.path, h.headers, []⟩, s')
          else if maxMessageBytes < usizeAdd (headerEnd + 4) h.contentLength then
            (.error .requestEntityTooLarge, s')
          else match readBody (headerEnd + 4) h.contentLength rest s' with
            | (.error e, s'') => (.error e, s'')
            | (.ok body, s'') =>
                (.ok ⟨h.method, h.path, h.headers, body.take h.contentLength⟩, s'')

example :
    readRequest [.bytes (utf8 "GET / X\r\nA".toList), .bytes (utf8 ": b\r\n\r\n".toList)]
      = (.ok ⟨"GET".toList, "/".toList, [("a".toList, "b".toList)], []⟩, []) := by decide

/-! ## What the loops consume -/

theorem readHead_length {buf : Bytes} {from' : Nat} {s s' : Stream} {r : Bytes × Nat}
    (h : readHead buf from' s = (.ok r, s')) : s'.length < s.length := by
  induction s generalizing buf from' with
  | nil => simp [readHead] at h
  | cons a s ih =>
    cases a with
    | ioError => simp [readHead] at h
    | bytes c =>
      rw [readHead] at h
      split at h
      · simp at h
      · split at h
        · simp at h
        · split at h
          · simp only [Prod.mk.injEq] at h
            rw [← h.2]
            exact Nat.lt_succ_self _
          · exact Nat.lt_succ_of_lt (ih h)

theorem readBody_length {headLen n : Nat} {body : Bytes} {s s' : Stream}
    {r : Except StatusCode Bytes} (h : readBody headLen n body s = (r, s')) :
    s'.length ≤ s.length := by
  induction s generalizing body with
  | nil =>
    rw [readBody.eq_def] at h
    split at h <;> simp only [Prod.mk.injEq] at h <;> rw [← h.2]
  | cons a s ih =>
    rw [readBody.eq_def] at h
    split at h
    · simp only [Prod.mk.injEq] at h
      rw [← h.2]
    · cases a with
      | ioError =>
        simp only [Prod.mk.injEq] at h
        rw [← h.2]
        exact Nat.le_succ _
      | bytes c =>
        simp only at h
        split at h
        · simp only [Prod.mk.injEq] at h
          rw [← h.2]
          exact Nat.le_succ _
        · split at h
          · simp only [Prod.mk.injEq] at h
            rw [← h.2]
            exact Nat.le_succ _
          · exact Nat.le_succ_of_le (ih h)

/-- A request that was read has used at least one read. -/
theorem readRequest_length {s s' : Stream} {req : Request}
    (h : readRequest s = (.ok req, s')) : s'.length < s.length := by
  rw [readRequest] at h
  split at h
  · simp at h
  · rename_i buf headerEnd s₁ hhead
    have hlt := readHead_length hhead
    simp only at h
    split at h
    · simp at h
    · split at h
      · simp only [Prod.mk.injEq] at h
        rwa [← h.2]
      · split at h
        · simp at h
        · split at h
          · simp at h
          · rename_i body s₂ hbody
            simp only [Prod.mk.injEq] at h
            rw [← h.2]
            exact Nat.lt_of_le_of_lt (readBody_length hbody) hlt

end Gurted.Api
