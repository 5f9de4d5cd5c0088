import Gurted.Api.Reading

/-!
# Requests on the wire

The byte form of a request as a client sends it: start line, header lines,
CRLFCRLF and a body. For a well-formed one the head ends at the first CRLFCRLF
(`findSub_headText`) and parses back to what was sent (`parseHead_headText`).
-/

namespace Gurted.Api

open Gurted Gurted.Lib

structure WireRequest where
  method : Str
  path : Str
  version : Str
  headers : List (Str × Str)
  body : Bytes
  deriving DecidableEq, Repr

namespace WireRequest

def headerText (h : Str × Str) : Str := h.1 ++ ':' :: ' ' :: h.2

def startLine (R : WireRequest) : Str := R.method ++ ' ' :: (R.path ++ ' ' :: R.version)

def lines (R : WireRequest) : List Str := R.startLine :: R.headers.map headerText

def headText (R : WireRequest) : Str := R.lines.flatMap (· ++ crlf) ++ crlf

def encode (R : WireRequest) : Bytes := utf8 R.headText ++ R.body

/-- The request as the server sees it: header names come out in lower case. -/
def toRequest (R : WireRequest) : Request :=
  ⟨R.method, R.path, R.headers.map fun h => (h.1.toAsciiLowercase, h.2), R.body⟩

end WireRequest

/-- A head of these lines: each ends in CRLF, and an empty one ends the head. -/
def headOf (ls : List Str) : Str := ls.flatMap (· ++ crlf) ++ crlf

/-- A header as the parsers return it. -/
def headerSeen (h : Str × Str) : Str × Str := ((Str.trim h.1).toAsciiLowercase, Str.trim h.2)

/-- A non-empty string without white space. -/
structure IsToken (t : Str) : Prop where
  ne_nil : t ≠ []
  noWs : ∀ c ∈ t, Str.isWhitespace c = false

/-- A string that stays on its line. -/
structure IsLine (t : Str) : Prop where
  noCr : '\r' ∉ t
  noLf : '\n' ∉ t

instance (t : Str) : Decidable (IsLine t) :=
  decidable_of_iff ('\r' ∉ t ∧ '\n' ∉ t) ⟨fun h => ⟨h.1, h.2⟩, fun h => ⟨h.noCr, h.noLf⟩⟩

structure HeaderOk (h : Str × Str) : Prop where
  name_trim : Str.trim h.1 = h.1
  name_colon : ':' ∉ h.1
  name_line : IsLine h.1
  value_trim : Str.trim h.2 = h.2
  value_line : IsLine h.2

/-- A header that stays on its line and is split at its own colon. -/
structure IsHeader (h : Str × Str) : Prop where
  name_colon : ':' ∉ h.1
  name_line : IsLine h.1
  value_line : IsLine h.2

instance (h : Str × Str) : Decidable (IsHeader h) :=
  decidable_of_iff (':' ∉ h.1 ∧ IsLine h.1 ∧ IsLine h.2)
    ⟨fun hh => ⟨hh.1, hh.2.1, hh.2.2⟩, fun hh => ⟨hh.name_colon, hh.name_line, hh.value_line⟩⟩

/-- A name that is good for a header is good with every value on a line. -/
theorem IsHeader.withValue {name : Str} (h : IsHeader (name, [])) {value : Str}
    (hvalue : IsLine value) : IsHeader (name, value) :=
  ⟨h.name_colon, h.name_line, hvalue⟩

theorem HeaderOk.isHeader {h : Str × Str} (hok : HeaderOk h) : IsHeader h :=
  ⟨hok.name_colon, hok.name_line, hok.value_line⟩

theorem HeaderOk.seen {h : Str × Str} (hok : HeaderOk h) :
    headerSeen h = (h.1.toAsciiLowercase, h.2) := by
  rw [headerSeen, hok.name_trim, hok.value_trim]

def isContentLength (h : Str × Str) : Bool := h.1.toAsciiLowercase == contentLengthName

/-- No content-length header and no body, or one content-length header that
declares exactly the body. -/
def WireRequest.Framed (R : WireRequest) : Prop :=
  (R.headers.filter isContentLength = [] ∧ R.body = []) ∨
    ∃ h, R.headers.filter isContentLength = [h] ∧ Str.parseUsize h.2 = some R.body.length

structure WireRequest.WellFormed (R : WireRequest) : Prop where
  method : IsToken R.method
  path : IsToken R.path
  version : ∀ c ∈ R.version, Str.isWhitespace c = false
  headers : ∀ h ∈ R.headers, HeaderOk h
  framed : R.Framed
  fits : R.encode.length ≤ maxMessageBytes

/-! ## Lines without CR or LF -/

theorem notMem_of_noWs {c : Char} (hc : Str.isWhitespace c = true) {t : Str}
    (h : ∀ x ∈ t, Str.isWhitespace x = false) : c ∉ t := by
  intro hm
  rw [h c hm] at hc
  cases hc

theorem WireRequest.startLine_noCr {R : WireRequest} (hmethod : IsToken R.method)
    (hpath : IsToken R.path) (hversion : ∀ c ∈ R.version, Str.isWhitespace c = false) :
    '\r' ∉ R.startLine := by
  simp only [WireRequest.startLine, List.mem_append, List.mem_cons, not_or]
  exact ⟨notMem_of_noWs (by decide) hmethod.noWs, by decide,
    notMem_of_noWs (by decide) hpath.noWs, by decide, notMem_of_noWs (by decide) hversion⟩

theorem WireRequest.WellFormed.startLine_noCr {R : WireRequest} (h : R.WellFormed) :
    '\r' ∉ R.startLine := WireRequest.startLine_noCr h.method h.path h.version

theorem IsHeader.headerText_noCr {h : Str × Str} (hh : IsHeader h) :
    '\r' ∉ WireRequest.headerText h := by
  simp only [WireRequest.headerText, List.mem_append, List.mem_cons, not_or]
  exact ⟨hh.name_line.noCr, by decide, by decide, hh.value_line.noCr⟩

/-- The lines of a head hold no CR if its start line does not. -/
theorem noCr_of_isHeader {start : Str} (hstart : '\r' ∉ start) {hs : List (Str × Str)}
    (hhs : ∀ h ∈ hs, IsHeader h) :
    ∀ l ∈ start :: hs.map WireRequest.headerText, '\r' ∉ l := by
  intro l hl
  rcases List.mem_cons.mp hl with rfl | hl
  · exact hstart
  · obtain ⟨h, hmem, rfl⟩ := List.mem_map.mp hl
    exact (hhs h hmem).headerText_noCr

theorem headerText_ne_nil (h : Str × Str) : WireRequest.headerText h ≠ [] := by
  simp [WireRequest.headerText]

/-! ## Where the head ends -/

/-- `"\r\n"` as bytes. -/
def crlfBytes : Bytes := [13, 10]

/-- The search moves past a line whose CRLF is followed by another line. -/
theorem findSub_crlf_line {l : Bytes} {b : UInt8} (hl : 13 ∉ l) (hb : b ≠ 13) (rest : Bytes) :
    findSub crlfcrlf (l ++ crlfBytes ++ b :: rest)
      = (findSub crlfcrlf (b :: rest)).map (· + (l.length + 2)) := by
  have hline : findSub crlfcrlf (l ++ (crlfBytes ++ b :: rest))
      = (findSub crlfcrlf (crlfBytes ++ b :: rest)).map (· + l.length) :=
    findSub_append_of_head_notMem hl _
  have htwo : findSub crlfcrlf (crlfBytes ++ b :: rest)
      = (findSub crlfcrlf (b :: rest)).map (· + 2) := by
    simp [findSub, crlfcrlf, crlfBytes, Ne.symm hb, Option.map_map, Function.comp_def]
  rw [List.append_assoc, hline, htwo, Option.map_map]
  congr 1
  funext i
  show i + 2 + l.length = i + (l.length + 2)
  omega

/-- The first CRLFCRLF after a list of non-empty lines is the one that ends
them. -/
theorem findSub_crlf_lines {ls : List Bytes} (hls : ls ≠ []) (hcr : ∀ l ∈ ls, 13 ∉ l)
    (hne : ∀ l ∈ ls, l ≠ []) (t : Bytes) :
    findSub crlfcrlf (ls.flatMap (· ++ crlfBytes) ++ crlfBytes ++ t)
      = some ((ls.flatMap (· ++ crlfBytes)).length - 2) := by
  induction ls with
  | nil => exact absurd rfl hls
  | cons l ls ih =>
    have hl : (13 : UInt8) ∉ l := hcr l (by simp)
    cases ls with
    | nil =>
      have hstep : findSub crlfcrlf (l ++ (crlfBytes ++ crlfBytes ++ t))
          = (findSub crlfcrlf (crlfBytes ++ crlfBytes ++ t)).map (· + l.length) :=
        findSub_append_of_head_notMem hl _
      simp only [List.flatMap_cons, List.flatMap_nil, List.append_nil, List.append_assoc] at hstep ⊢
      rw [hstep]
      simp [crlfBytes, crlfcrlf, findSub]
    | cons l₂ ls =>
      have hrec := ih (by simp) (fun x hx => hcr x (by simp [hx]))
        (fun x hx => hne x (by simp [hx]))
      -- the line's own CRLF is followed by the next line, not by a second CRLF
      obtain ⟨b, l₂', hl₂⟩ := List.exists_cons_of_ne_nil (hne l₂ (by simp))
      have hb : b ≠ 13 := by
        intro h
        apply hcr l₂ (by simp)
        rw [hl₂, h]
        simp
      have hshape : (l :: l₂ :: ls).flatMap (· ++ crlfBytes) ++ crlfBytes ++ t
          = l ++ crlfBytes ++ ((l₂ :: ls).flatMap (· ++ crlfBytes) ++ crlfBytes ++ t) := by
        simp [List.flatMap_cons]
      have hhead : ∃ rest, (l₂ :: ls).flatMap (· ++ crlfBytes) ++ crlfBytes ++ t = b :: rest :=
        ⟨l₂' ++ (crlfBytes ++ (ls.flatMap (· ++ crlfBytes) ++ crlfBytes ++ t)), by
          simp [hl₂, List.flatMap_cons]⟩
      obtain ⟨rest, hrest⟩ := hhead
      rw [hshape, hrest, findSub_crlf_line hl hb, ← hrest, hrec]
      have hge : 2 ≤ ((l₂ :: ls).flatMap (· ++ crlfBytes)).length := by
        simp [List.flatMap_cons, crlfBytes]
        omega
      simp only [Option.map_some, Option.some.injEq, List.flatMap_cons, List.length_append,
        crlfBytes, List.length_cons, List.length_nil] at hge ⊢
      omega

theorem utf8_crlf : utf8 crlf = crlfBytes := by decide

theorem utf8_lines (ls : List Str) :
    utf8 (ls.flatMap (· ++ crlf) ++ crlf)
      = (ls.map utf8).flatMap (· ++ crlfBytes) ++ crlfBytes := by
  rw [utf8_append, utf8_crlf]
  congr 1
  induction ls with
  | nil => rfl
  | cons l ls ih => simp [List.flatMap_cons, ih, utf8_crlf]

theorem utf8_headOf (ls : List Str) :
    utf8 (headOf ls) = (ls.map utf8).flatMap (· ++ crlfBytes) ++ crlfBytes := utf8_lines ls

theorem four_le_headOf {ls : List Str} (hls : ls ≠ []) : 4 ≤ (utf8 (headOf ls)).length := by
  obtain ⟨l, ls, rfl⟩ := List.exists_cons_of_ne_nil hls
  rw [utf8_headOf]
  simp [List.flatMap_cons, crlfBytes]
  omega

/-- **The head ends** at the first CRLFCRLF, whatever follows it. -/
theorem findSub_headOf_lines {ls : List Str} (hls : ls ≠ []) (hcr : ∀ l ∈ ls, '\r' ∉ l)
    (hne : ∀ l ∈ ls, l ≠ []) (t : Bytes) :
    findSub crlfcrlf (utf8 (headOf ls) ++ t) = some ((utf8 (headOf ls)).length - 4) := by
  have hbytes : ∀ l ∈ ls.map utf8, 13 ∉ l := by
    intro l hl hmem
    obtain ⟨s, hs, rfl⟩ := List.mem_map.mp hl
    exact hcr s hs (mem_of_mem_utf8 hmem (by decide) (by decide))
  have hnil : ∀ l ∈ ls.map utf8, l ≠ [] := by
    intro l hl
    obtain ⟨s, hs, rfl⟩ := List.mem_map.mp hl
    exact utf8_ne_nil (hne s hs)
  rw [utf8_headOf, findSub_crlf_lines (by simpa using hls) hbytes hnil, List.length_append]
  rfl

section Head
variable {start : Str} {hs : List (Str × Str)} (hstart : '\r' ∉ start) (hnil : start ≠ [])
  (hhs : ∀ h ∈ hs, IsHeader h)
include hstart hnil hhs

theorem findSub_headOf (t : Bytes) :
    findSub crlfcrlf (utf8 (headOf (start :: hs.map WireRequest.headerText)) ++ t)
      = some ((utf8 (headOf (start :: hs.map WireRequest.headerText))).length - 4) := by
  refine findSub_headOf_lines (List.cons_ne_nil _ _) (noCr_of_isHeader hstart hhs) ?_ t
  intro l hl
  rcases List.mem_cons.mp hl with rfl | hl
  · exact hnil
  · obtain ⟨h, -, rfl⟩ := List.mem_map.mp hl
    exact headerText_ne_nil h

/-- A message is cut behind its head. -/
theorem exists_cut_headOf (body : Bytes) :
    ∃ i, findSub crlfcrlf (utf8 (headOf (start :: hs.map WireRequest.headerText)) ++ body)
        = some i ∧
      i + 4 = (utf8 (headOf (start :: hs.map WireRequest.headerText))).length := by
  have hfour : 4 ≤ (utf8 (headOf (start :: hs.map WireRequest.headerText))).length :=
    four_le_headOf (by simp)
  exact ⟨_, findSub_headOf hstart hnil hhs body, by omega⟩

end Head

theorem WireRequest.startLine_ne_nil (R : WireRequest) : R.startLine ≠ [] := by
  simp [WireRequest.startLine]

theorem WireRequest.findSub_headText {R : WireRequest} (h : R.WellFormed) (t : Bytes) :
    findSub crlfcrlf (utf8 R.headText ++ t) = some ((utf8 R.headText).length - 4) :=
  findSub_headOf h.startLine_noCr R.startLine_ne_nil (fun hd hhd => (h.headers hd hhd).isHeader) t

theorem WireRequest.four_le_headText (R : WireRequest) : 4 ≤ (utf8 R.headText).length :=
  four_le_headOf (by simp [WireRequest.lines])

/-- How both writers of the repository write the length, and the end of a head. -/
theorem contentLengthLine_eq (number : Str) :
    "content-length: ".toList ++ number ++ "\r\n".toList
      = WireRequest.headerText (contentLengthName, number) ++ crlf := by
  have hname : contentLengthName = "content-length".toList := rfl
  rw [hname]
  simp [WireRequest.headerText, crlf]

theorem crlf_eq : "\r\n".toList = crlf := by simp [crlf]

/-- A loop that appends one header line a turn, to text or to the bytes of it. -/
theorem foldl_headerText {β : Type*} {form : Str → β} {push : β → Str × Str → β}
    (hpush : ∀ s h, push (form s) h = form (s ++ (WireRequest.headerText h ++ crlf)))
    (headers : List (Str × Str)) (s : Str) :
    headers.foldl push (form s)
      = form (s ++ (headers.map WireRequest.headerText).flatMap (· ++ crlf)) := by
  induction headers generalizing s with
  | nil => rw [List.map_nil, List.flatMap_nil, List.append_nil, List.foldl_nil]
  | cons h headers ih =>
    rw [List.foldl_cons, hpush, ih, List.map_cons, List.flatMap_cons, List.append_assoc]

/-! ## What the head says -/

theorem splitSub_lines {ls : List Str} (h : ∀ l ∈ ls, '\r' ∉ l) :
    splitSub crlf (ls.flatMap (· ++ crlf) ++ crlf) = ls ++ [[], []] := by
  induction ls with
  | nil => rfl
  | cons l ls ih =>
    have hrec := ih fun x hx => h x (by simp [hx])
    have hstep : splitSub crlf (l ++ crlf ++ (ls.flatMap (· ++ crlf) ++ crlf))
        = l :: splitSub crlf (ls.flatMap (· ++ crlf) ++ crlf) :=
      splitSub_append_cons (h l (by simp)) _
    have hshape : (l :: ls).flatMap (· ++ crlf) ++ crlf
        = l ++ crlf ++ (ls.flatMap (· ++ crlf) ++ crlf) := by
      simp [List.flatMap_cons]
    rw [hshape, hstep, hrec, List.cons_append]

theorem splitWhitespace_startLine {R : WireRequest} (hmethod : IsToken R.method)
    (hpath : IsToken R.path) :
    ∃ ts, Str.splitWhitespace R.startLine = R.method :: R.path :: ts := by
  rw [WireRequest.startLine,
    Str.splitWhitespace_token_cons hmethod.ne_nil hmethod.noWs (by decide),
    Str.splitWhitespace_token_cons hpath.ne_nil hpath.noWs (by decide)]
  exact ⟨_, rfl⟩

/-- The header that a line of a head is, if it is one. -/
def headerOf (line : Str) : Option (Str × Str) := (Str.splitOnce ':' line).map headerSeen

/-- The fold over the header lines pushes the headers among them. -/
theorem foldl_headerLine_eq (lines : List Str) (acc : List (Str × Str) × Nat) :
    (lines.foldl headerLine acc).1 = acc.1 ++ lines.filterMap headerOf := by
  induction lines generalizing acc with
  | nil => exact (List.append_nil _).symm
  | cons line lines ih =>
    rw [List.foldl_cons, ih, headerLine]
    cases line with
    | nil => rfl
    | cons c line =>
      cases hsplit : Str.splitOnce ':' (c :: line) with
      | none => simp [headerOf, hsplit]
      | some p => simp [headerOf, hsplit, headerSeen]

theorem headerOf_headerText {hd : Str × Str} (h : IsHeader hd) :
    headerOf (WireRequest.headerText hd) = some (headerSeen hd) := by
  have hsplit : Str.splitOnce ':' (WireRequest.headerText hd) = some (hd.1, ' ' :: hd.2) :=
    Str.splitOnce_append h.name_colon _
  have htrim : Str.trim (' ' :: hd.2) = Str.trim hd.2 :=
    Str.trim_cons_of_isWhitespace (by decide) _
  rw [headerOf, hsplit, Option.map_some, headerSeen, htrim, headerSeen]

/-- The fold over the header lines pushes every header. -/
theorem foldl_headerLine {hs : List (Str × Str)} (h : ∀ hd ∈ hs, IsHeader hd)
    (acc : List (Str × Str) × Nat) :
    ((hs.map WireRequest.headerText ++ [[], []]).foldl headerLine acc).1
      = acc.1 ++ hs.map headerSeen := by
  have hend : ([[], []] : List Str).filterMap headerOf = [] := by decide
  rw [foldl_headerLine_eq, List.filterMap_append, hend, List.append_nil, List.filterMap_map,
    ← List.filterMap_eq_map]
  exact congrArg (acc.1 ++ ·) (List.filterMap_congr fun hd hhd => headerOf_headerText (h hd hhd))

/-! ## The declared length -/

/-- The value of the last content-length header that parses. -/
def lastLength (headers : List (Str × Str)) : Option Nat :=
  headers.foldl (fun o h => if h.1 = contentLengthName then (Str.parseUsize h.2).or o else o) none

theorem lastLength_concat (headers : List (Str × Str)) (h : Str × Str) :
    lastLength (headers ++ [h])
      = if h.1 = contentLengthName then (Str.parseUsize h.2).or (lastLength headers)
        else lastLength headers := by
  rw [lastLength, List.foldl_append]
  rfl

theorem lastLength_eq_filter (headers : List (Str × Str)) :
    lastLength headers = (headers.filter (·.1 == contentLengthName)).foldl
      (fun o h => (Str.parseUsize h.2).or o) none := by
  simp only [lastLength, List.foldl_filter, beq_iff_eq]

/-- What `read_request` keeps as the length is what its headers declare. -/
theorem headerLine_lastLength {acc : List (Str × Str) × Nat}
    (h : acc.2 = (lastLength acc.1).getD 0) (line : Str) :
    (headerLine acc line).2 = (lastLength (headerLine acc line).1).getD 0 := by
  rw [headerLine]
  split
  · exact h
  · split
    · exact h
    · simp only [lastLength_concat]
      split
      · next value _ _ =>
        cases Str.parseUsize (Str.trim value) with
        | none => exact h
        | some n => rfl
      · exact h

theorem foldl_headerLine_lastLength (lines : List Str) {acc : List (Str × Str) × Nat}
    (h : acc.2 = (lastLength acc.1).getD 0) :
    (lines.foldl headerLine acc).2 = (lastLength (lines.foldl headerLine acc).1).getD 0 := by
  induction lines generalizing acc with
  | nil => exact h
  | cons line lines ih => exact ih (headerLine_lastLength h line)

/-- The loop over the lines of a head. -/
theorem foldl_headerLine_nil {hs : List (Str × Str)} (h : ∀ hd ∈ hs, IsHeader hd) :
    (hs.map WireRequest.headerText ++ [[], []]).foldl headerLine ([], 0)
      = (hs.map headerSeen, (lastLength (hs.map headerSeen)).getD 0) := by
  have hheaders : ((hs.map WireRequest.headerText ++ [[], []]).foldl headerLine ([], 0)).1
      = hs.map headerSeen := foldl_headerLine h _
  refine Prod.ext hheaders ?_
  rw [foldl_headerLine_lastLength _ rfl, hheaders]

/-- A header that comes back as it was: its name in lower case, and nothing to trim. -/
structure IsPlain (h : Str × Str) : Prop where
  ok : HeaderOk h
  lower : h.1.toAsciiLowercase = h.1

theorem IsPlain.seen {h : Str × Str} (hh : IsPlain h) : headerSeen h = h := by
  rw [hh.ok.seen, hh.lower]

theorem map_headerSeen {hs : List (Str × Str)} (h : ∀ hd ∈ hs, IsPlain hd) :
    hs.map headerSeen = hs := by
  have hid : hs.map headerSeen = hs.map id := List.map_congr_left fun hd hhd => (h hd hhd).seen
  rw [hid, List.map_id]

/-- The content-length header both writers of the repository end a head with. -/
theorem headerOk_contentLength (n : Nat) : HeaderOk (contentLengthName, Str.ofNat n) where
  name_trim := show Str.trim contentLengthName = contentLengthName by decide
  name_colon := show ':' ∉ contentLengthName by decide
  name_line := show IsLine contentLengthName by decide
  value_trim := Str.trim_of_noWs (Str.noWs_ofNat n)
  value_line := ⟨notMem_of_noWs (by decide) (Str.noWs_ofNat n),
    notMem_of_noWs (by decide) (Str.noWs_ofNat n)⟩

theorem headerSeen_contentLength (n : Nat) :
    headerSeen (contentLengthName, Str.ofNat n) = (contentLengthName, Str.ofNat n) := by
  have hlower : contentLengthName.toAsciiLowercase = contentLengthName := by decide
  rw [(headerOk_contentLength n).seen, hlower]

theorem lastLength_contentLength (headers : List (Str × Str)) {n : Nat} (h : n < 2 ^ 64) :
    lastLength (headers ++ [(contentLengthName, Str.ofNat n)]) = some n := by
  have hparse : Str.parseUsize (Str.ofNat n) = some n := Str.parseUnsigned_ofNat h
  rw [lastLength_concat, if_pos rfl, hparse]
  rfl

/-- The head of any lines, as the loop over them leaves it. -/
theorem parseHead_headOf_lines {start method path : Str} {ls ts : List Str}
    (hcr : ∀ l ∈ start :: ls, '\r' ∉ l) (hwords : Str.splitWhitespace start = method :: path :: ts)
    (hmethod : method ≠ []) (hpath : path ≠ []) :
    parseHead (utf8 (headOf (start :: ls)))
      = .ok ⟨method, path, ((ls ++ [[], []]).foldl headerLine ([], 0)).1,
          ((ls ++ [[], []]).foldl headerLine ([], 0)).2⟩ := by
  have hm : method.isEmpty = false := by simpa using hmethod
  have hp : path.isEmpty = false := by simpa using hpath
  have hsplit : splitSub crlf (headOf (start :: ls)) = start :: (ls ++ [[], []]) :=
    splitSub_lines hcr
  simp only [parseHead, fromUtf8_utf8, hsplit, List.headD_cons, List.tail_cons, hwords, hm, hp,
    Bool.or_self, Bool.false_eq_true, if_false]

/-- A parsed request: its headers, and the length they declare. -/
theorem parseHead_headOf {start method path : Str} {ts : List Str} (hstart : '\r' ∉ start)
    (hwords : Str.splitWhitespace start = method :: path :: ts) (hmethod : method ≠ [])
    (hpath : path ≠ []) {hs : List (Str × Str)} (hhs : ∀ h ∈ hs, IsHeader h) :
    parseHead (utf8 (headOf (start :: hs.map WireRequest.headerText)))
      = .ok ⟨method, path, hs.map headerSeen, (lastLength (hs.map headerSeen)).getD 0⟩ := by
  rw [parseHead_headOf_lines (noCr_of_isHeader hstart hhs) hwords hmethod hpath,
    foldl_headerLine_nil hhs]

theorem WireRequest.headers_seen {R : WireRequest} (h : R.WellFormed) :
    R.headers.map headerSeen = R.headers.map fun hd => (hd.1.toAsciiLowercase, hd.2) :=
  List.map_congr_left fun hd hhd => (h.headers hd hhd).seen

theorem WireRequest.contentLength_eq {R : WireRequest} (h : R.Framed) :
    (lastLength (R.headers.map fun hd => (hd.1.toAsciiLowercase, hd.2))).getD 0
      = R.body.length := by
  have hfilter : (R.headers.map fun hd => (hd.1.toAsciiLowercase, hd.2)).filter
      (·.1 == contentLengthName)
        = (R.headers.filter isContentLength).map fun hd => (hd.1.toAsciiLowercase, hd.2) :=
    List.filter_map
  rw [lastLength_eq_filter, hfilter]
  rcases h with ⟨hnone, hbody⟩ | ⟨hd, hone, hlen⟩
  · rw [hnone, hbody]
    rfl
  · rw [hone, List.map_singleton, List.foldl_cons, List.foldl_nil, hlen]
    rfl

theorem WireRequest.parseHead_headText {R : WireRequest} (h : R.WellFormed) :
    parseHead (utf8 R.headText)
      = .ok ⟨R.method, R.path, R.headers.map (fun hd => (hd.1.toAsciiLowercase, hd.2)),
          R.body.length⟩ := by
  obtain ⟨ts, hsp⟩ := splitWhitespace_startLine h.method h.path
  rw [← contentLength_eq h.framed, ← headers_seen h]
  exact parseHead_headOf h.startLine_noCr hsp h.method.ne_nil h.path.ne_nil
    fun hd hhd => (h.headers hd hhd).isHeader

end Gurted.Api
