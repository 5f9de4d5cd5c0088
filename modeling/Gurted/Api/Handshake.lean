import Gurted.Api.Until
import Gurted.Api.Wire

/-!
# The server's side of the handshake (`gurt-api/src/handshake.rs`)
-/

namespace Gurted.Api

open Gurted Gurted.Lib

/-- `MAX_HANDSHAKE_BYTES`. -/
def maxHandshakeBytes : Nat := 8 * 1024

/-- `PROTO_VERSION`. -/
def protoVersion : Str := "GURT/1.0.0".toList

/-- `text.lines().next().unwrap_or("")` for the lossy text of a buffer. -/
def firstLine (buf : Bytes) : Str := (Str.lines (fromUtf8Lossy buf)).headD []

/-- A word of a line; the empty string where there is none. -/
def word (line : Str) (n : Nat) : Str := ((Str.splitWhitespace line)[n]?).getD []

/-- The text of the 101 reply. -/
def switchingProtocols (date : Str) : Str :=
  protoVersion ++ " 101 SWITCHING_PROTOCOLS\r\n".toList
    ++ "gurt-version: 1.0.0\r\n".toList
    ++ "encryption: TLS/1.3\r\n".toList
    ++ "alpn: GURT/1.0\r\n".toList
    ++ "server: GURT/1.0.0\r\n".toList
    ++ "date: ".toList ++ date ++ "\r\n\r\n".toList

/-- `read_and_respond_handshake`: the bytes it writes, and the connection it leaves.
On an error it writes nothing. -/
def readAndRespondHandshake (date : Str) (s : Stream) : Except Anyhow Bytes × Stream :=
  match readUntil maxHandshakeBytes ⟨.io, .msg "handshake: connection closed".toList,
      .msg "handshake: too large".toList⟩ [] s with
  | (.error e, s') => (.error e, s')
  | (.ok (buf, _), s') =>
      let line := firstLine buf
      if word line 0 ≠ "HANDSHAKE".toList ∨ word line 1 ≠ "/".toList ∨
          word line 2 ≠ protoVersion then
        (.error (.msg ("invalid handshake start-line: ".toList ++ line)), s')
      else (.ok (utf8 (switchingProtocols date)), s')

/-! ## A head that arrives -/

section Head
variable {start : Str} {hs : List (Str × Str)} (hline : IsLine start) (hnil : start ≠ [])
  (hhs : ∀ h ∈ hs, IsHeader h)

include hline in
/-- The first line of a head is its start line. -/
theorem firstLine_headOf (ls : List Str) : firstLine (utf8 (headOf (start :: ls))) = start := by
  have hshape : headOf (start :: ls) = (start ++ crlf) ++ headOf ls := by
    simp [headOf, List.flatMap_cons]
  have hlines := Str.lines_crlf hline.noLf (headOf ls)
  rw [firstLine, fromUtf8Lossy_utf8, hshape, List.append_assoc]
  show (Str.lines (start ++ '\r' :: '\n' :: headOf ls)).headD [] = start
  rw [hlines]
  rfl

include hline hnil hhs in
/-- A loop up to CRLFCRLF reads a head without a body, and nothing more. -/
theorem readUntil_headOf {E : Type*} {cap : Nat} (errs : HeadErrors E) {cs : List Bytes}
    (hne : ∀ c ∈ cs, c ≠ [])
    (hbytes : cs.flatten = utf8 (headOf (start :: hs.map WireRequest.headerText)))
    (hcap : cs.flatten.length ≤ cap) :
    ∃ i, readUntil cap errs [] (.ofChunks cs)
      = (.ok (utf8 (headOf (start :: hs.map WireRequest.headerText)), i), []) := by
  obtain ⟨i, hfind, hlen⟩ := exists_cut_headOf hline.noCr hnil hhs []
  rw [List.append_nil, ← hbytes] at hfind
  obtain ⟨buf, rest, hread, -, hhead⟩ := readUntil_whole errs hne hcap hfind
  obtain ⟨more, hbuf, hmore⟩ := hhead.split
  -- there is nothing behind the head, neither in the buffer nor on the connection
  rw [hbytes, hlen, List.drop_length, List.append_eq_nil_iff] at hmore
  rw [hbytes, hlen, List.take_length, hmore.1, List.append_nil] at hbuf
  have hrest : rest = [] := by
    cases rest with
    | nil => rfl
    | cons c rest =>
      have hc := hhead.nonempty c (by simp)
      rw [List.flatten_cons, List.append_eq_nil_iff] at hmore
      exact absurd hmore.2.1 hc
  rw [hbuf, hrest] at hread
  exact ⟨i, hread⟩

end Head

/-! ## What the server makes of a request -/

/-- The start line of a handshake request. -/
def handshakeLine (version : Str) : Str := "HANDSHAKE / ".toList ++ version

theorem handshakeLine_eq (version : Str) :
    handshakeLine version = "HANDSHAKE".toList ++ ' ' :: ("/".toList ++ ' ' :: version) := by
  have hline : handshakeLine version = "HANDSHAKE / ".toList ++ version := rfl
  rw [hline]
  simp

section Request
variable {version : Str} (hversion : IsToken version)
include hversion

theorem splitWhitespace_handshakeLine :
    Str.splitWhitespace (handshakeLine version)
      = ["HANDSHAKE".toList, "/".toList, version] := by
  have hlast : Str.splitWhitespace version = [version] := by
    rw [Str.splitWhitespace_token hversion.noWs, if_neg]
    simpa using hversion.ne_nil
  rw [handshakeLine_eq, Str.splitWhitespace_token_cons (by decide) (Str.noWs_of_all (by decide))
    (by decide), Str.splitWhitespace_token_cons (by decide) (Str.noWs_of_all (by decide))
    (by decide), hlast]

theorem handshakeLine_isLine : IsLine (handshakeLine version) := by
  rw [handshakeLine_eq]
  constructor
  · simp only [List.mem_append, List.mem_cons, not_or]
    exact ⟨by decide, by decide, by decide, by decide, notMem_of_noWs (by decide) hversion.noWs⟩
  · simp only [List.mem_append, List.mem_cons, not_or]
    exact ⟨by decide, by decide, by decide, by decide, notMem_of_noWs (by decide) hversion.noWs⟩

/-- **The server** accepts a handshake request within its cap exactly when it names
the version of the protocol. -/
theorem readAndRespondHandshake_headOf (date : Str) {hs : List (Str × Str)}
    (hhs : ∀ h ∈ hs, IsHeader h) {cs : List Bytes} (hne : ∀ c ∈ cs, c ≠ [])
    (hbytes : cs.flatten
      = utf8 (headOf (handshakeLine version :: hs.map WireRequest.headerText)))
    (hcap : cs.flatten.length ≤ maxHandshakeBytes) :
    (readAndRespondHandshake date (.ofChunks cs)).1
      = if version = protoVersion then .ok (utf8 (switchingProtocols date))
        else .error (.msg ("invalid handshake start-line: ".toList ++ handshakeLine version)) := by
  have hline := handshakeLine_isLine hversion
  have hnil : handshakeLine version ≠ [] := by
    rw [handshakeLine_eq]
    simp
  obtain ⟨i, hread⟩ := readUntil_headOf hline hnil hhs ⟨Anyhow.io,
    .msg "handshake: connection closed".toList, .msg "handshake: too large".toList⟩ hne hbytes hcap
  have hwords := splitWhitespace_handshakeLine hversion
  rw [readAndRespondHandshake, hread]
  simp only [firstLine_headOf hline, word, hwords, List.getElem?_cons_zero,
    List.getElem?_cons_succ, Option.getD_some, ne_eq, not_true_eq_false, false_or]
  by_cases hproto : version = protoVersion
  · rw [if_neg (by simpa using hproto), if_pos hproto]
  · rw [if_pos hproto, if_neg hproto]

end Request

end Gurted.Api
