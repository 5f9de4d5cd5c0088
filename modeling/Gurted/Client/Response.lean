import Mathlib.Data.List.Induction
import Gurted.Api.Until
import Gurted.Api.Wire
import Gurted.Indexing.Fetch

/-!
# Reading a response (`gurtd/src/crawler/client.rs`, `gurtd/src/indexing/fetch.rs`)

The repository reads responses twice: `read_response_like` for the crawler's client
and `read_response` for the indexer. They share the shape of `read_request` and
differ in their errors, in what a head without content-length means, and in where
they check the declared size. `oneShotResponse` is what both make of an input that
declares its length, however it arrives.
-/

namespace Gurted.Client

open Gurted Gurted.Lib Gurted.Api Gurted.Indexing

theorem eq_ok_of_toOption {E A : Type} {x : Except E A} {a : A} (h : x.toOption = some a) :
    x = .ok a := by
  cases x with
  | error e => cases h
  | ok b => exact congrArg Except.ok (Option.some.inj h)

/-! ## `crawler::client` -/

inductive ClientError where
  | invalidMessage
  | connection
  | timeout
  | io
  deriving DecidableEq, Repr

/-- What the lines of a response head say; `L` is the type of `content_length`. -/
structure ResponseHead (L : Type) where
  code : Nat
  headers : List (Str × Str)
  contentLength : L
  deriving DecidableEq, Repr

/-- The response a head and its body make; a failure to read the body is passed on. -/
def ResponseHead.withBody {L E : Type} (h : ResponseHead L) :
    Except E Bytes × Stream → Except E ClientResponse × Stream
  | (.error e, s) => (.error e, s)
  | (.ok body, s) => (.ok ⟨h.code, h.headers, body⟩, s)

theorem ResponseHead.withBody_toOption {L E : Type} (h : ResponseHead L)
    (res : Except E Bytes × Stream) :
    (h.withBody res).1.toOption = res.1.toOption.map fun body => ⟨h.code, h.headers, body⟩ := by
  obtain ⟨e | body, s⟩ := res <;> rfl

/-- The second word of the status line. -/
def statusToken (lines : List Str) : Option Str := (Str.splitWhitespace (lines.headD []))[1]?

/-- The body of a declared length, as both readers read it: the check of the declared
size, the body loop, and the cut to the length. -/
def readDeclared {E : Type} (declared : LimitError → E) (errs : BodyErrors E) (headLen len : Nat)
    (rest : Bytes) (s : Stream) : Except E Bytes × Stream :=
  match enforceMaxMessageSize (usizeAdd headLen len) with
  | .error e => (.error (declared e), s)
  | .ok () =>
      match readToLength errs headLen len rest s with
      | (.error e, s') => (.error e, s')
      | (.ok body, s') => (.ok (body.take len), s')

/-- The parse of the head in `read_response_like`. Its loop over the header lines
is that of `read_request`. -/
def parseResponseLikeHead (head : Bytes) : Except ClientError (ResponseHead Nat) :=
  match fromUtf8 head with
  | none => .error .invalidMessage
  | some headStr =>
      let lines := splitSub crlf headStr
      match (statusToken lines).bind Str.parseU16 with
      | none => .error .invalidMessage
      | some code =>
          let acc := lines.tail.foldl headerLine ([], 0)
          .ok ⟨code, acc.1, acc.2⟩

/-- `read_response_like`, with the connection it leaves behind. Its argument `chunk`
bounds what one read returns. -/
def readResponseLike (s : Stream) : Except ClientError ClientResponse × Stream :=
  match readUntil maxMessageBytes ⟨.io, .connection, .io⟩ [] s with
  | (.error e, s') => (.error e, s')
  | (.ok (buf, headerEnd), s') =>
      let rest := buf.drop (headerEnd + 4)
      match parseResponseLikeHead (buf.take (headerEnd + 4)) with
      | .error e => (.error e, s')
      | .ok h =>
          -- what is in `rest` is dropped here
          if h.contentLength = 0 then (.ok ⟨h.code, h.headers, []⟩, s')
          else h.withBody
            (readDeclared (fun _ => .io) ⟨.io, fun _ => .io⟩ (headerEnd + 4) h.contentLength
              rest s')

/-- The parse of a head, from its lines. -/
theorem parseResponseLikeHead_ok_iff {bytes : Bytes} {h : ResponseHead Nat} :
    parseResponseLikeHead bytes = .ok h ↔
      ∃ text, fromUtf8 bytes = some text ∧
        (statusToken (splitSub crlf text)).bind Str.parseU16 = some h.code ∧
        h.headers = (splitSub crlf text).tail.filterMap headerOf ∧
        h.contentLength = (lastLength h.headers).getD 0 := by
  rw [parseResponseLikeHead]
  cases htext : fromUtf8 bytes with
  | none => simp
  | some text =>
    have hlength := foldl_headerLine_lastLength (splitSub crlf text).tail
      (show (([], 0) : List (Str × Str) × Nat).2 = _ from rfl)
    have hheaders := foldl_headerLine_eq (splitSub crlf text).tail ([], 0)
    rw [List.nil_append] at hheaders
    simp only [Option.some.injEq, exists_eq_left']
    cases (statusToken (splitSub crlf text)).bind Str.parseU16 with
    | none => simp
    | some code =>
      simp only [hlength, hheaders, Except.ok.injEq, Option.some.injEq]
      constructor
      · rintro rfl
        exact ⟨rfl, rfl, rfl⟩
      · intro hparts
        obtain ⟨rfl, hheaders', hlength'⟩ := hparts
        obtain ⟨code, headers, length⟩ := h
        simp only at hheaders' hlength'
        rw [hlength', hheaders']

/-! ## `indexing::fetch` -/

/-- The loop over the header lines in `read_response`: a content length is only
there when a value parsed. -/
def optionLine (acc : List (Str × Str) × Option Nat) (line : Str) :
    List (Str × Str) × Option Nat :=
  if line.isEmpty then acc
  else match Str.splitOnce ':' line with
    | none => acc
    | some (name, value) =>
        let lname := (Str.trim name).toAsciiLowercase
        let val := Str.trim value
        (acc.1 ++ [(lname, val)],
          if lname = contentLengthName then (Str.parseUsize val).or acc.2 else acc.2)

/-- The parse of the head in `read_response`. -/
def parseResponseHead (head : Bytes) : Except Anyhow (ResponseHead (Option Nat)) :=
  match fromUtf8 head with
  | none => .error .utf8
  | some headStr =>
      let lines := splitSub crlf headStr
      match statusToken lines with
      | none => .error (.msg "missing status code".toList)
      | some token =>
          match Str.parseU16 token with
          | none => .error .parseInt
          | some code =>
              let acc := lines.tail.foldl optionLine ([], none)
              .ok ⟨code, acc.1, acc.2⟩

/-- The loop without a declared length: until the input ends, fails, or is idle for
too long. `idle k` says that the read number `k` of the loop times out. -/
def readToIdle (idle : Nat → Bool) (headLen : Nat) (k : Nat) (body : Bytes) :
    Stream → Except Anyhow Bytes × Stream
  | [] => (.ok body, [])
  | a :: s =>
      if idle k then (.ok body, a :: s)
      else match a with
        | .ioError => (.ok body, s)
        | .bytes c =>
            if c.isEmpty then (.ok body, s)
            else match enforceMaxMessageSize (headLen + (body ++ c).length) with
              | .error e => (.error (.limit e), s)
              | .ok () => readToIdle idle headLen (k + 1) (body ++ c) s

/-- `read_response`. -/
def readResponse (idle : Nat → Bool) (s : Stream) : Except Anyhow ClientResponse × Stream :=
  match readUntil maxMessageBytes
      ⟨.io, .msg "response closed".toList, .msg "response too large".toList⟩ [] s with
  | (.error e, s') => (.error e, s')
  | (.ok (buf, headerEnd), s') =>
      let rest := buf.drop (headerEnd + 4)
      match parseResponseHead (buf.take (headerEnd + 4)) with
      | .error e => (.error e, s')
      | .ok h =>
          match h.contentLength with
          | some len =>
              h.withBody (readDeclared .limit ⟨.io, fun n => .limit ⟨maxMessageBytes, n⟩⟩
                (headerEnd + 4) len rest s')
          | none => h.withBody (readToIdle idle (headerEnd + 4) 0 rest s')

/-! ## The declared length -/

/-- Some value parses if and only if there is a last one. -/
theorem lastLength_isSome_iff (headers : List (Str × Str)) :
    (lastLength headers).isSome ↔
      ∃ h ∈ headers, h.1 = contentLengthName ∧ (Str.parseUsize h.2).isSome := by
  induction headers using List.reverseRecOn with
  | nil => simp [lastLength]
  | append_singleton headers h ih =>
    rw [lastLength_concat]
    simp only [List.mem_append, List.mem_singleton, or_and_right, exists_or, exists_eq_left, ← ih]
    split
    · next hname => simp [hname, or_comm]
    · next hname => simp [hname]

theorem optionLine_lastLength {acc : List (Str × Str) × Option Nat}
    (h : acc.2 = lastLength acc.1) (line : Str) :
    (optionLine acc line).2 = lastLength (optionLine acc line).1 := by
  rw [optionLine]
  split
  · exact h
  · split
    · exact h
    · simp only [lastLength_concat, h]

/-- Both loops push the same headers. -/
theorem optionLine_headers {acc : List (Str × Str) × Option Nat} {acc' : List (Str × Str) × Nat}
    (h : acc.1 = acc'.1) (line : Str) : (optionLine acc line).1 = (headerLine acc' line).1 := by
  rw [optionLine, headerLine]
  split
  · exact h
  · cases Str.splitOnce ':' line with
    | none => exact h
    | some p => simp only [h]

theorem foldl_optionLine (lines : List Str) {acc : List (Str × Str) × Option Nat}
    {acc' : List (Str × Str) × Nat} (hheaders : acc.1 = acc'.1) (h : acc.2 = lastLength acc.1) :
    (lines.foldl optionLine acc).1 = (lines.foldl headerLine acc').1 ∧
      (lines.foldl optionLine acc).2 = lastLength (lines.foldl headerLine acc').1 := by
  induction lines generalizing acc acc' with
  | nil => exact ⟨hheaders, by rw [List.foldl_nil, h, hheaders]; rfl⟩
  | cons line lines ih =>
    exact ih (optionLine_headers hheaders line) (optionLine_lastLength h line)

/-! ## Both readers -/

/-- The lines of the head of an input, if it has a head and that is text. -/
def headLines (input : Bytes) : Option (List Str) :=
  (findSub crlfcrlf input).bind fun headerEnd =>
    (fromUtf8 (input.take (headerEnd + 4))).map fun headStr => splitSub crlf headStr

/-- The headers in the lines of a head. -/
def headersOf (lines : List Str) : List (Str × Str) := (lines.tail.foldl headerLine ([], 0)).1

theorem headersOf_eq (lines : List Str) : headersOf lines = lines.tail.filterMap headerOf :=
  foldl_headerLine_eq lines.tail ([], 0)

/-- If the input has a head, it carries a content-length header with a value that
parses. -/
def DeclaresLength (input : Bytes) : Prop :=
  ∀ lines, headLines input = some lines →
    ∃ h ∈ headersOf lines, h.1 = contentLengthName ∧ (Str.parseUsize h.2).isSome

/-- The response in a complete input; `none` if a reader fails. -/
def oneShotResponse (input : Bytes) : Option ClientResponse :=
  match findSub crlfcrlf input with
  | none => none
  | some headerEnd =>
      match parseResponseLikeHead (input.take (headerEnd + 4)) with
      | .error _ => none
      | .ok h =>
          if maxMessageBytes < usizeAdd (headerEnd + 4) h.contentLength then none
          else some ⟨h.code, h.headers, (input.drop (headerEnd + 4)).take h.contentLength⟩

/-- A head that declares a length parses the same way twice. -/
theorem parseResponseHead_toOption {head : Bytes}
    (h : ∀ headStr, fromUtf8 head = some headStr →
      (lastLength (headersOf (splitSub crlf headStr))).isSome) :
    (parseResponseHead head).toOption
      = (parseResponseLikeHead head).toOption.map fun r =>
          ⟨r.code, r.headers, some r.contentLength⟩ := by
  rw [parseResponseHead, parseResponseLikeHead]
  cases htext : fromUtf8 head with
  | none => rfl
  | some headStr =>
    have hlength := h headStr htext
    rw [headersOf] at hlength
    simp only
    generalize splitSub crlf headStr = lines at hlength
    cases htoken : statusToken lines with
    | none => rfl
    | some token =>
      simp only [Option.bind_some]
      cases Str.parseU16 token with
      | none => rfl
      | some code =>
        obtain ⟨hheaders, hoption⟩ := foldl_optionLine lines.tail
          (show ([], none).1 = ([], 0).1 from rfl) rfl
        have hnat := foldl_headerLine_lastLength lines.tail (show ([], 0).2 = _ from rfl)
        obtain ⟨n, hn⟩ := Option.isSome_iff_exists.mp hlength
        rw [hn] at hoption hnat
        simp only [Except.toOption, Option.map_some, hheaders, hoption, hnat, Option.getD_some]

/-- The body after the header loop, on an input within the cap. -/
theorem readDeclared_toOption {E : Type} {declared : LimitError → E} {errs : BodyErrors E}
    {input buf : Bytes} {rest : List Bytes} {i : Nat} (hfind : findSub crlfcrlf input = some i)
    (hread : HeadRead (input.take (i + 4)) (input.drop (i + 4)) buf rest)
    (hcap : input.length ≤ maxMessageBytes) (len : Nat) :
    (readDeclared declared errs (i + 4) len (buf.drop (i + 4)) (.ofChunks rest)).1.toOption
      = if maxMessageBytes < usizeAdd (i + 4) len then none
        else some ((input.drop (i + 4)).take len) := by
  by_cases hbig : maxMessageBytes < usizeAdd (i + 4) len
  · rw [readDeclared, enforceMaxMessageSize_error hbig, if_pos hbig]
    rfl
  · obtain ⟨got, s, hgot, hcut⟩ := hread.readToLength_whole hfind hcap errs len
    rw [readDeclared, enforceMaxMessageSize_ok (by omega), if_neg hbig, hgot]
    exact congrArg some hcut

section Delivered
variable {input : Bytes} {cs : List Bytes} (hne : ∀ c ∈ cs, c ≠ []) (hinput : cs.flatten = input)
  (hcap : input.length ≤ maxMessageBytes)
include hne hinput hcap

/-- **`read_response_like`** depends on the bytes alone. -/
theorem readResponseLike_toOption :
    (readResponseLike (.ofChunks cs)).1.toOption = oneShotResponse input := by
  subst hinput
  rw [readResponseLike, oneShotResponse]
  cases hfind : findSub crlfcrlf cs.flatten with
  | none =>
    rw [readUntil_ofChunks_none hne hcap hfind]
    rfl
  | some i =>
    obtain ⟨buf, rest, hhead, htake, hread⟩ :=
      readUntil_whole ⟨ClientError.io, .connection, .io⟩ hne hcap hfind
    rw [hhead]
    simp only [htake]
    cases hparse : parseResponseLikeHead (cs.flatten.take (i + 4)) with
    | error e => rfl
    | ok h =>
      simp only
      by_cases hzero : h.contentLength = 0
      · have hle : i + 4 ≤ cs.flatten.length := findSub_le hfind
        have hsmall : ¬ maxMessageBytes < usizeAdd (i + 4) h.contentLength :=
          not_lt_usizeAdd (by omega)
        rw [if_pos hzero, if_neg hsmall, hzero, List.take_zero]
        rfl
      · rw [if_neg hzero]
        rw [ResponseHead.withBody_toOption, readDeclared_toOption hfind hread hcap]
        split <;> rfl

/-- **`read_response`** makes the same of an input that declares its length. -/
theorem readResponse_toOption (hlength : DeclaresLength input) (idle : Nat → Bool) :
    (readResponse idle (.ofChunks cs)).1.toOption = oneShotResponse input := by
  subst hinput
  rw [readResponse, oneShotResponse]
  cases hfind : findSub crlfcrlf cs.flatten with
  | none =>
    rw [readUntil_ofChunks_none hne hcap hfind]
    rfl
  | some i =>
    obtain ⟨buf, rest, hhead, htake, hread⟩ := readUntil_whole
      ⟨Anyhow.io, .msg "response closed".toList, .msg "response too large".toList⟩ hne hcap hfind
    rw [hhead]
    simp only [htake]
    have hsame := parseResponseHead_toOption
      (show ∀ headStr, fromUtf8 (cs.flatten.take (i + 4)) = some headStr → _ from
        fun headStr htext => (lastLength_isSome_iff _).mpr
          (hlength _ (by rw [headLines, hfind, Option.bind_some, htext, Option.map_some])))
    cases hlike : parseResponseLikeHead (cs.flatten.take (i + 4)) with
    | error e =>
      rw [hlike] at hsame
      cases hparse : parseResponseHead (cs.flatten.take (i + 4)) with
      | error e' => rfl
      | ok h' =>
        rw [hparse] at hsame
        cases hsame
    | ok h =>
      rw [hlike] at hsame
      cases hparse : parseResponseHead (cs.flatten.take (i + 4)) with
      | error e' =>
        rw [hparse] at hsame
        cases hsame
      | ok h' =>
        rw [hparse] at hsame
        cases hsame
        simp only
        rw [ResponseHead.withBody_toOption, readDeclared_toOption hfind hread hcap]
        split <;> rfl

end Delivered

/-- **Agreement.** On every input within the cap whose head declares a length, and
for any two ways of cutting it into non-empty reads, both readers fail or both
return the same response. -/
theorem readResponseLike_eq_readResponse {input : Bytes} {cs₁ cs₂ : List Bytes}
    (hne₁ : ∀ c ∈ cs₁, c ≠ []) (hinput₁ : cs₁.flatten = input)
    (hne₂ : ∀ c ∈ cs₂, c ≠ []) (hinput₂ : cs₂.flatten = input)
    (hcap : input.length ≤ maxMessageBytes) (hlength : DeclaresLength input)
    (idle : Nat → Bool) :
    (readResponseLike (.ofChunks cs₁)).1.toOption
      = (readResponse idle (.ofChunks cs₂)).1.toOption := by
  rw [readResponseLike_toOption hne₁ hinput₁ hcap,
    readResponse_toOption hne₂ hinput₂ hcap hlength]

theorem DeclaresLength.of_lines {input : Bytes} {lines : List Str}
    (hlines : headLines input = some lines)
    (h : ∃ h ∈ headersOf lines, h.1 = contentLengthName ∧ (Str.parseUsize h.2).isSome) :
    DeclaresLength input := by
  intro lines' hlines'
  rw [hlines] at hlines'
  cases hlines'
  exact h

/-- A response that stops short of its declared length, in two pieces and in one. -/
theorem readResponseLike_eq_readResponse_short :
    (readResponseLike (.ofChunks [utf8 "GURT/1.0.0 200 OK\r\ncontent-length: 9\r".toList,
        utf8 "\n\r\nab".toList])).1.toOption
      = (readResponse (fun _ => false) (.ofChunks
          [utf8 "GURT/1.0.0 200 OK\r\ncontent-length: 9\r\n\r\nab".toList])).1.toOption :=
  readResponseLike_eq_readResponse (by decide)
    (show _ = utf8 "GURT/1.0.0 200 OK\r\ncontent-length: 9\r\n\r\nab".toList by decide)
    (by decide) (by decide) (by decide)
    (.of_lines (show _ = some ["GURT/1.0.0 200 OK".toList, "content-length: 9".toList, [], []]
      by decide) (by decide)) _

end Gurted.Client
