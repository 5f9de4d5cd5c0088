import Gurted.Std.Scan

/-!
# Links of a page (`gurtd/src/link/mod.rs`)

`extract_links` walks byte indices over the page and a lower case copy of it. One turn of
its loop is `nextLink`; `none` is the panic of a slice. `extractLinks_isSome_iff` says on
which pages the loop gets through: those that close the quotes of every value.
-/

namespace Gurted.Link

open Gurted Gurted.Lib

/-! ## The scanner -/

/-- `u8::is_ascii_whitespace`. -/
def isAsciiWhitespace (b : UInt8) : Bool := b == 32 || b == 9 || b == 10 || b == 12 || b == 13

/-- The index of the value behind a `=`; `none` is the end of the page, which leaves the
loop. -/
def valueBehind (html : Str) (j : Nat) : Option Nat :=
  let j := skipWhile isAsciiWhitespace (utf8 html) j
  if html.byteLen ≤ j then none
  else
    -- some pages have backslashes before the quote
    let j := skipWhile (· == 92) (utf8 html) j
    if html.byteLen ≤ j then none else some j

/-- The index of the value of the next `href`; `some none` leaves the loop. -/
def valueStart (html : Str) (i : Nat) : Option (Option Nat) := do
  let lower := html.toAsciiLowercase
  match (← lower.sliceFrom i).find "href".toList with
  | none => return none
  | some hrefRel =>
      let hrefPos := i + hrefRel
      match (← lower.sliceFrom hrefPos).find ['='] with
      | none => return none
      | some eq => return valueBehind html (hrefPos + eq + 1)

def gurtScheme : Str := "gurt://".toList

/-- What is pushed for a value: trailing backslashes are tolerated. -/
def linkOf (url : Str) : Option Str :=
  if url.startsWith gurtScheme then some (url.rdropWhile (· == '\\')) else none

/-- The link at a value, and where the next turn starts. The index is a length of text, which
`saturating_add` leaves as it is. -/
def readValue (html : Str) (j : Nat) : Option (Option Str × Nat) := do
  let quote ← (utf8 html)[j]?
  if quote == 34 || quote == 39 then
    let j := j + 1
    let k := skipWhile (· != quote) (utf8 html) j
    let url ← html.get j (min k html.byteLen)
    return (linkOf url, k + 1)
  else
    let k := skipWhile (fun b => !isAsciiWhitespace b && b != 62) (utf8 html) j
    let url ← html.get j k
    return (linkOf url, k)

/-- One turn of the loop. -/
def nextLink (html : Str) (i : Nat) : Option (Option (Option Str × Nat)) := do
  match ← valueStart html i with
  | none => return none
  | some j => return some (← readValue html j)

/-! ## Values -/

def isQuote (c : Char) : Bool := c == '"' || c == '\''

def isSpace (c : Char) : Bool := c == ' ' || c == '\t' || c == '\n' || c == '\x0c' || c == '\r'

/-- The characters of a value without quotes. -/
def isBare (c : Char) : Bool := !(isSpace c || c == '>')

/-- White space, and then backslashes, are left out. -/
def skipToValue (s : Str) : Str := (s.dropWhile isSpace).dropWhile (· == '\\')

/-- What stands behind the `=` of the next `href`, from the value on. -/
def nextValue (s : Str) : Option Str := do
  let i ← findSub "href".toList s.toAsciiLowercase
  let k ← findSub ['='] (Str.toAsciiLowercase (s.drop i))
  let value := skipToValue (s.drop (i + k + 1))
  if value = [] then none else some value

/-! ## What the indices are in characters -/

theorem agrees_isSpace : Agrees isAsciiWhitespace isSpace :=
  ((((Agrees.beq (by decide) (by decide)).or (Agrees.beq (by decide) (by decide))).or
    (Agrees.beq (by decide) (by decide))).or (Agrees.beq (by decide) (by decide))).or
      (Agrees.beq (by decide) (by decide))

theorem agrees_isQuote : Agrees (fun b => b == 34 || b == 39) isQuote :=
  (Agrees.beq (by decide) (by decide)).or (Agrees.beq (by decide) (by decide))

theorem agrees_isBare : Agrees (fun b => !isAsciiWhitespace b && b != 62) isBare := by
  intro c b hb
  have hspace := agrees_isSpace c b hb
  have hgt := Agrees.beq (b := 62) (c := '>') (by decide) (by decide) c b hb
  simp only [isBare, bne, hspace, hgt, Bool.not_or]

theorem byteLen_append_le_iff {s t : Str} : Str.byteLen (s ++ t) ≤ Str.byteLen s ↔ t = [] := by
  constructor
  · intro h
    cases t with
    | nil => rfl
    | cons c t =>
      have := c.utf8Size_pos
      rw [Str.byteLen_append, Str.byteLen_cons] at h
      omega
  · rintro rfl
    rw [List.append_nil]

theorem valueBehind_append (pre v : Str) :
    (skipToValue v = [] ∧ valueBehind (pre ++ v) pre.byteLen = none) ∨
      ∃ skipped, v = skipped ++ skipToValue v ∧ skipToValue v ≠ [] ∧
        valueBehind (pre ++ v) pre.byteLen = some (Str.byteLen (pre ++ skipped)) := by
  have hback : Agrees (· == 92) (· == '\\') := Agrees.beq (by decide) (by decide)
  have hspaces : pre ++ v = pre ++ v.takeWhile isSpace ++ v.dropWhile isSpace := by
    rw [List.append_assoc, List.takeWhile_append_dropWhile]
  have hbacks : pre ++ v.takeWhile isSpace ++ v.dropWhile isSpace
      = pre ++ v.takeWhile isSpace ++ (v.dropWhile isSpace).takeWhile (· == '\\')
        ++ skipToValue v := by
    rw [skipToValue, List.append_assoc (pre ++ v.takeWhile isSpace),
      List.takeWhile_append_dropWhile]
  have hend : v.dropWhile isSpace = [] → skipToValue v = [] := fun h => by rw [skipToValue, h]; rfl
  simp only [valueBehind, agrees_isSpace.skipWhile_append]
  rw [hspaces, hback.skipWhile_append]
  by_cases hempty : v.dropWhile isSpace = []
  · exact .inl ⟨hend hempty, if_pos (byteLen_append_le_iff.mpr hempty)⟩
  · rw [if_neg (byteLen_append_le_iff.not.mpr hempty), hbacks]
    by_cases hvalue : skipToValue v = []
    · exact .inl ⟨hvalue, if_pos (byteLen_append_le_iff.mpr hvalue)⟩
    · refine .inr
        ⟨v.takeWhile isSpace ++ (v.dropWhile isSpace).takeWhile (· == '\\'), ?_, hvalue, ?_⟩
      · rw [skipToValue, List.append_assoc, List.takeWhile_append_dropWhile,
          List.takeWhile_append_dropWhile]
      · rw [if_neg (byteLen_append_le_iff.not.mpr hvalue), List.append_assoc pre]

/-- The lower case copy is sliced where the page is. -/
theorem sliceFrom_lower (a b : Str) :
    Str.sliceFrom a.byteLen (Str.toAsciiLowercase (a ++ b)) = some b.toAsciiLowercase := by
  rw [Str.toAsciiLowercase_append, ← Str.byteLen_toAsciiLowercase a, Str.sliceFrom_append]

theorem nextValue_append {u name w v : Str}
    (hu : findSub "href".toList (Str.toAsciiLowercase (u ++ (name ++ (w ++ v)))) = some u.length)
    (hname : findSub ['='] (Str.toAsciiLowercase (name ++ (w ++ v))) = some name.length)
    (hw : w.toAsciiLowercase = ['=']) :
    nextValue (u ++ (name ++ (w ++ v)))
      = if skipToValue v = [] then none else some (skipToValue v) := by
  have hlen : w.length = 1 := by
    rw [← Str.toAsciiLowercase_length, hw]
    rfl
  have hdrop : (u ++ (name ++ (w ++ v))).drop (u.length + name.length + 1) = v := by
    rw [← hlen, ← List.length_append, ← List.length_append, ← List.append_assoc,
      ← List.append_assoc, List.drop_left]
  simp only [nextValue, hu, List.drop_left, hname, hdrop, Option.bind_eq_bind, Option.bind_some]

/-- The search for the value, behind a part of the page. -/
theorem valueStart_append (pre s : Str) :
    (nextValue s = none ∧ valueStart (pre ++ s) pre.byteLen = some none) ∨
      ∃ head value, s = head ++ value ∧ nextValue s = some value ∧ value ≠ [] ∧
        valueStart (pre ++ s) pre.byteLen = some (some (Str.byteLen (pre ++ head))) := by
  simp only [valueStart, sliceFrom_lower, Option.bind_eq_bind, Option.bind_some]
  cases hhref : s.toAsciiLowercase.find "href".toList with
  | none =>
    rw [Str.find, Option.map_eq_none_iff] at hhref
    exact .inl ⟨by rw [nextValue, hhref]; rfl, rfl⟩
  | some hrefRel =>
    obtain ⟨u, w, v, rfl, -, hu, rfl⟩ := Str.exists_of_find_lower hhref
    generalize w ++ v = tag at hu
    have htag : pre.byteLen + u.byteLen = Str.byteLen (pre ++ u) := (Str.byteLen_append pre u).symm
    simp only [htag, ← List.append_assoc pre, sliceFrom_lower, Option.bind_some]
    cases heq : tag.toAsciiLowercase.find ['='] with
    | none =>
      rw [Str.find, Option.map_eq_none_iff] at heq
      refine .inl ⟨?_, rfl⟩
      rw [nextValue, hu, Option.bind_eq_bind, Option.bind_some, List.drop_left, heq]
      rfl
    | some eq =>
      obtain ⟨name, w', v', rfl, hw', hname, rfl⟩ := Str.exists_of_find_lower heq
      have hone : Str.byteLen w' = 1 := by
        rw [← Str.byteLen_toAsciiLowercase, hw']
        rfl
      have hvalue := nextValue_append hu hname hw'
      have hindex : Str.byteLen (pre ++ u) + name.byteLen + 1
          = Str.byteLen (pre ++ u ++ name ++ w') := by
        simp only [Str.byteLen_append, hone]
      have hpage : pre ++ u ++ (name ++ (w' ++ v')) = pre ++ u ++ name ++ w' ++ v' := by
        simp only [List.append_assoc]
      simp only [hvalue, hindex, hpage]
      rcases valueBehind_append (pre ++ u ++ name ++ w') v' with
        ⟨hempty, hnone⟩ | ⟨skipped, hskipped, hne, hsome⟩
      · exact .inl ⟨if_pos hempty, congrArg some hnone⟩
      · refine .inr ⟨u ++ name ++ w' ++ skipped, skipToValue v', ?_, if_neg hne, hne, ?_⟩
        · simp only [List.append_assoc, ← hskipped]
        · rw [hsome]
          simp only [List.append_assoc]
          rfl

/-! A value, by what it starts with. -/

section Reading
variable {q : Char} (pre : Str)

theorem utf8EncodeChar_of_isQuote (hq : isQuote q = true) :
    ∃ b, String.utf8EncodeChar q = [b] ∧ Agrees (· != b) (· != q) := by
  simp only [isQuote, Bool.or_eq_true, beq_iff_eq] at hq
  rcases hq with rfl | rfl
  · exact ⟨34, rfl, (Agrees.beq (by decide) (by decide)).not⟩
  · exact ⟨39, rfl, (Agrees.beq (by decide) (by decide)).not⟩

/-- The first byte of the value tells whether it is a quote. -/
theorem exists_first_byte (q : Char) (t : Str) : ∃ b ∈ String.utf8EncodeChar q,
    (utf8 (pre ++ q :: t))[pre.byteLen]? = some b ∧ (b == 34 || b == 39) = isQuote q := by
  obtain ⟨b, hb, hget⟩ := exists_getElem?_utf8 pre q t
  exact ⟨b, hb, hget, agrees_isQuote q b hb⟩

/-- In quotes: up to the next one, or to the end of the page. -/
theorem readValue_quoted (hq : isQuote q = true) (t : Str) :
    readValue (pre ++ q :: t) pre.byteLen =
      some (linkOf (t.takeWhile (· != q)),
        Str.byteLen (pre ++ q :: t.takeWhile (· != q)) + 1) := by
  obtain ⟨b, henc, hagrees⟩ := utf8EncodeChar_of_isQuote hq
  obtain ⟨b', hb', hget, hquote⟩ := exists_first_byte pre q t
  rw [henc, List.mem_singleton] at hb'
  subst hb'
  have hnext : pre.byteLen + 1 = Str.byteLen (pre ++ [q]) := by
    rw [Str.byteLen_append, Str.byteLen_cons, ← String.length_utf8EncodeChar, henc]
    rfl
  have hpage : pre ++ q :: t = pre ++ [q] ++ t := List.append_cons pre q t
  have hcut : pre ++ [q] ++ t
      = pre ++ [q] ++ (t.takeWhile (· != q) ++ t.dropWhile (· != q)) := by
    rw [List.takeWhile_append_dropWhile]
  have hle : Str.byteLen (pre ++ [q] ++ t.takeWhile (· != q)) ≤ Str.byteLen (pre ++ [q] ++ t) := by
    rw [hcut, ← List.append_assoc, Str.byteLen_append _ (List.dropWhile _ t)]
    exact Nat.le_add_right _ _
  have hslice : Str.get (Str.byteLen (pre ++ [q]))
      (Str.byteLen (pre ++ [q] ++ t.takeWhile (· != q))) (pre ++ [q] ++ t)
      = some (t.takeWhile (· != q)) := by
    rw [hcut, Str.get_append]
  simp only [readValue, hget, hquote, hq, if_true, Option.bind_eq_bind, Option.bind_some]
  simp only [hpage, hnext, hagrees.skipWhile_append, Nat.min_eq_left hle, hslice, Option.bind_some,
    List.append_cons pre q (List.takeWhile _ t)]
  rfl

/-- Without quotes: up to white space or the end of the tag. -/
theorem readValue_bare (hq : isQuote q = false) (t : Str) :
    readValue (pre ++ q :: t) pre.byteLen =
      some (linkOf ((q :: t).takeWhile isBare),
        Str.byteLen (pre ++ (q :: t).takeWhile isBare)) := by
  obtain ⟨b, -, hget, hquote⟩ := exists_first_byte pre q t
  have hslice : Str.get pre.byteLen (Str.byteLen (pre ++ (q :: t).takeWhile isBare)) (pre ++ q :: t)
      = some ((q :: t).takeWhile isBare) := by
    have hcut := Str.get_append pre ((q :: t).takeWhile isBare) ((q :: t).dropWhile isBare)
    rwa [List.takeWhile_append_dropWhile] at hcut
  simp only [readValue, hget, hquote, hq, Bool.false_eq_true, if_false, Option.bind_eq_bind,
    Option.bind_some, agrees_isBare.skipWhile_append, hslice]
  rfl

end Reading

/-! ## The loop -/

theorem valueBehind_le {html : Str} {j j' : Nat} (h : valueBehind html j = some j') :
    j ≤ j' ∧ j' < html.byteLen := by
  simp only [valueBehind] at h
  split at h
  · cases h
  · split at h
    · cases h
    · next hlt =>
      cases h
      exact ⟨(Nat.le_add_right _ _).trans (Nat.le_add_right _ _), Nat.not_le.mp hlt⟩

theorem valueStart_lt {html : Str} {i j : Nat} (h : valueStart html i = some (some j)) :
    i < j ∧ j < html.byteLen := by
  simp only [valueStart, Option.bind_eq_bind] at h
  obtain ⟨rest, -, h⟩ := Option.bind_eq_some_iff.mp h
  cases hhref : rest.find "href".toList with
  | none =>
    rw [hhref] at h
    cases h
  | some hrefRel =>
    rw [hhref] at h
    obtain ⟨tag, -, h⟩ := Option.bind_eq_some_iff.mp h
    cases heq : tag.find ['='] with
    | none =>
      rw [heq] at h
      cases h
    | some eq =>
      rw [heq] at h
      obtain ⟨hle, hlt⟩ := valueBehind_le (Option.some.inj h)
      exact ⟨by omega, hlt⟩

theorem readValue_le {html : Str} {j i' : Nat} {link : Option Str}
    (h : readValue html j = some (link, i')) : j ≤ i' := by
  simp only [readValue, Option.bind_eq_bind] at h
  obtain ⟨quote, -, h⟩ := Option.bind_eq_some_iff.mp h
  split at h
  · obtain ⟨url, -, h⟩ := Option.bind_eq_some_iff.mp h
    cases h
    rw [skipWhile]
    omega
  · obtain ⟨url, -, h⟩ := Option.bind_eq_some_iff.mp h
    cases h
    exact Nat.le_add_right _ _

/-- **Every turn moves on.** -/
theorem nextLink_lt {html : Str} {i i' : Nat} {link : Option Str}
    (h : nextLink html i = some (some (link, i'))) : i < html.byteLen ∧ i < i' := by
  simp only [nextLink, Option.bind_eq_bind] at h
  obtain ⟨start, hstart, h⟩ := Option.bind_eq_some_iff.mp h
  cases start with
  | none => cases h
  | some j =>
    obtain ⟨read, hread, h⟩ := Option.bind_eq_some_iff.mp h
    cases h
    obtain ⟨hij, hj⟩ := valueStart_lt hstart
    have hle := readValue_le hread
    exact ⟨by omega, by omega⟩

/-- `extract_links` from an index on. -/
def extractFrom (html : Str) (i : Nat) : Option (List Str) :=
  match _h : nextLink html i with
  | none => none
  | some none => some []
  | some (some (link, i')) => (extractFrom html i').map (link.toList ++ ·)
termination_by html.byteLen + 1 - i
decreasing_by
  have := nextLink_lt _h
  omega

def extractLinks (html : Str) : Option (List Str) := extractFrom html 0

section Turns
variable {pre s t value : Str} {q : Char}

theorem extractFrom_of_none (h : nextValue s = none) :
    extractFrom (pre ++ s) pre.byteLen = some [] := by
  rcases valueStart_append pre s with ⟨-, hstart⟩ | ⟨head, value, -, hvalue, -, -⟩
  · have hnext : nextLink (pre ++ s) pre.byteLen = some none := by
      rw [nextLink, hstart]
      rfl
    rw [extractFrom]
    split
    · next heq => rw [hnext] at heq; cases heq
    · rfl
    · next heq => rw [hnext] at heq; cases heq
  · rw [h] at hvalue
    cases hvalue

/-- A turn that finds a value goes on where the value ends. -/
theorem extractFrom_of_some (pre : Str) (h : nextValue s = some value) :
    ∃ head, s = head ++ value ∧ head ≠ [] ∧ ∀ link i',
      readValue (pre ++ head ++ value) (Str.byteLen (pre ++ head)) = some (link, i') →
      extractFrom (pre ++ s) pre.byteLen
        = (extractFrom (pre ++ s) i').map (link.toList ++ ·) := by
  rcases valueStart_append pre s with ⟨hnone, -⟩ | ⟨head, value', rfl, hvalue, -, hstart⟩
  · rw [h] at hnone
    cases hnone
  · rw [h] at hvalue
    cases hvalue
    have hhead : head ≠ [] := by
      rintro rfl
      have hlt := (valueStart_lt hstart).1
      rw [List.append_nil] at hlt
      exact Nat.lt_irrefl _ hlt
    refine ⟨head, rfl, hhead, fun link i' hread => ?_⟩
    have hnext : nextLink (pre ++ (head ++ value)) pre.byteLen = some (some (link, i')) := by
      rw [List.append_assoc] at hread
      simp only [nextLink, hstart, Option.bind_eq_bind, Option.bind_some, hread]
      rfl
    rw [extractFrom]
    split
    · next heq => rw [hnext] at heq; cases heq
    · next heq => rw [hnext] at heq; cases heq
    · next heq =>
      rw [hnext] at heq
      cases heq
      rfl

theorem takeWhile_ne_append {v rest : Str} (hv : q ∉ v) :
    (v ++ q :: rest).takeWhile (· != q) = v := by
  have hall : ∀ c ∈ v, (c != q) = true := fun c hc => bne_iff_ne.mpr fun h => hv (h ▸ hc)
  rw [List.takeWhile_append_of_pos hall, List.takeWhile_cons, bne_self_eq_false]
  exact List.append_nil v

theorem extractFrom_quoted {v rest : Str} (pre : Str)
    (h : nextValue s = some (q :: (v ++ q :: rest))) (hq : isQuote q = true) (hv : q ∉ v) :
    ∃ head, s = head ++ rest ∧ rest.length < s.length ∧
      extractFrom (pre ++ s) pre.byteLen
        = (extractFrom (pre ++ head ++ rest) (Str.byteLen (pre ++ head))).map
            ((linkOf v).toList ++ ·) := by
  obtain ⟨head, rfl, -, hturn⟩ := extractFrom_of_some pre h
  refine ⟨head ++ q :: v ++ [q], by simp, ?_, ?_⟩
  · simp only [List.length_append, List.length_cons]
    omega
  · have hone : Str.byteLen [q] = 1 := by
      obtain ⟨b, henc, -⟩ := utf8EncodeChar_of_isQuote hq
      rw [Str.byteLen_cons, ← String.length_utf8EncodeChar, henc]
      rfl
    have hread := readValue_quoted (pre ++ head) hq (v ++ q :: rest)
    rw [takeWhile_ne_append hv, ← hone, ← Str.byteLen_append] at hread
    have hsame : pre ++ (head ++ q :: v ++ [q]) = pre ++ head ++ q :: v ++ [q] := by simp
    rw [hturn _ _ hread, hsame]
    congr 2
    simp

/-- A quote that is not closed ends in a panic: the next turn slices behind the page. -/
theorem extractFrom_unclosed (pre : Str) (h : nextValue s = some (q :: t)) (hq : isQuote q = true)
    (ht : q ∉ t) : extractFrom (pre ++ s) pre.byteLen = none := by
  obtain ⟨head, rfl, -, hturn⟩ := extractFrom_of_some pre h
  have hall : t.takeWhile (· != q) = t :=
    List.takeWhile_eq_self_iff.mpr fun c hc => bne_iff_ne.mpr fun h => ht (h ▸ hc)
  have hread := readValue_quoted (pre ++ head) hq t
  rw [hall] at hread
  have hpanic : nextLink (pre ++ (head ++ q :: t)) (Str.byteLen (pre ++ head ++ q :: t) + 1)
      = none := by
    have hslice : Str.sliceFrom (Str.byteLen (pre ++ head ++ q :: t) + 1)
        (Str.toAsciiLowercase (pre ++ (head ++ q :: t))) = none := by
      refine Str.sliceFrom_of_byteLen_lt ?_
      rw [Str.byteLen_toAsciiLowercase, List.append_assoc]
      exact Nat.lt_succ_self _
    simp only [nextLink, valueStart, hslice, Option.bind_eq_bind, Option.bind_none]
  rw [hturn _ _ hread, extractFrom]
  split
  · rfl
  · next heq => rw [hpanic] at heq; cases heq
  · next heq => rw [hpanic] at heq; cases heq

theorem extractFrom_bare (pre : Str) (h : nextValue s = some (q :: t)) (hq : isQuote q = false) :
    ∃ head, s = head ++ (q :: t).dropWhile isBare ∧
      ((q :: t).dropWhile isBare).length < s.length ∧
      extractFrom (pre ++ s) pre.byteLen
        = (extractFrom (pre ++ head ++ (q :: t).dropWhile isBare) (Str.byteLen (pre ++ head))).map
            ((linkOf ((q :: t).takeWhile isBare)).toList ++ ·) := by
  obtain ⟨head, rfl, hhead, hturn⟩ := extractFrom_of_some pre h
  have hcut : head ++ (q :: t)
      = head ++ (q :: t).takeWhile isBare ++ (q :: t).dropWhile isBare := by
    rw [List.append_assoc, List.takeWhile_append_dropWhile]
  refine ⟨head ++ (q :: t).takeWhile isBare, hcut, ?_, ?_⟩
  · have hpos := List.length_pos_iff.mpr hhead
    rw [hcut, List.length_append, List.length_append]
    omega
  · rw [hturn _ _ (readValue_bare (pre ++ head) hq t), hcut, List.append_assoc pre head]
    simp only [List.append_assoc]

/-! ## No panic -/

/-- A value of the page is never closed: it starts with a quote that does not come again. -/
inductive Unclosed : Str → Prop where
  | here {s t : Str} {q : Char} :
      nextValue s = some (q :: t) → isQuote q = true → q ∉ t → Unclosed s
  | quoted {s v rest : Str} {q : Char} :
      nextValue s = some (q :: (v ++ q :: rest)) → isQuote q = true → q ∉ v →
      Unclosed rest → Unclosed s
  | bare {s t : Str} {q : Char} :
      nextValue s = some (q :: t) → isQuote q = false →
      Unclosed ((q :: t).dropWhile isBare) → Unclosed s

theorem nextValue_ne_nil : nextValue s ≠ some [] := by
  intro h
  rcases valueStart_append [] s with ⟨hnone, -⟩ | ⟨head, value, -, hvalue, hne, -⟩
  · rw [h] at hnone
    cases hnone
  · rw [h] at hvalue
    exact hne (Option.some.inj hvalue).symm

theorem not_unclosed_of_none (h : nextValue s = none) : ¬ Unclosed s := by
  rintro (⟨hvalue, -, -⟩ | ⟨hvalue, -, -, -⟩ | ⟨hvalue, -, -⟩) <;>
  · rw [h] at hvalue
    cases hvalue

theorem unclosed_quoted_iff {v rest : Str} (h : nextValue s = some (q :: (v ++ q :: rest)))
    (hq : isQuote q = true) (hv : q ∉ v) : Unclosed s ↔ Unclosed rest := by
  constructor
  · rintro (⟨hvalue, -, ht⟩ | ⟨hvalue, -, hv', hrest⟩ | ⟨hvalue, hbare, -⟩)
    · rw [h] at hvalue
      cases hvalue
      exact absurd (List.mem_append_right v List.mem_cons_self) ht
    · rw [h] at hvalue
      obtain ⟨rfl, hcut⟩ := List.cons_eq_cons.mp (Option.some.inj hvalue)
      -- the closing quote is the first one
      have hsame := congrArg (List.takeWhile (· != q)) hcut
      rw [takeWhile_ne_append hv, takeWhile_ne_append hv'] at hsame
      subst hsame
      exact (List.cons_eq_cons.mp (List.append_cancel_left hcut)).2 ▸ hrest
    · rw [h] at hvalue
      cases hvalue
      rw [hq] at hbare
      cases hbare
  · exact .quoted h hq hv

theorem unclosed_bare_iff (h : nextValue s = some (q :: t)) (hq : isQuote q = false) :
    Unclosed s ↔ Unclosed ((q :: t).dropWhile isBare) := by
  constructor
  · rintro (⟨hvalue, hquote, -⟩ | ⟨hvalue, hquote, -, -⟩ | ⟨hvalue, -, hrest⟩) <;>
    · rw [h] at hvalue
      cases hvalue
      first
        | exact hrest
        | (rw [hq] at hquote; cases hquote)
  · exact .bare h hq

theorem extractFrom_isSome_iff (pre : Str) :
    (extractFrom (pre ++ s) pre.byteLen).isSome = true ↔ ¬ Unclosed s := by
  induction hlen : s.length using Nat.strong_induction_on generalizing pre s with
  | _ n ih =>
    cases hvalue : nextValue s with
    | none =>
      rw [extractFrom_of_none hvalue]
      exact iff_of_true rfl (not_unclosed_of_none hvalue)
    | some value =>
      cases value with
      | nil => exact absurd hvalue nextValue_ne_nil
      | cons q t =>
        cases hq : isQuote q with
        | true =>
          by_cases ht : q ∈ t
          · obtain ⟨v, rest, rfl, hv⟩ := List.eq_append_cons_of_mem ht
            obtain ⟨head, -, hshort, hturn⟩ := extractFrom_quoted pre hvalue hq hv
            rw [hturn, Option.isSome_map, ih _ (hlen ▸ hshort) _ rfl,
              unclosed_quoted_iff hvalue hq hv]
          · rw [extractFrom_unclosed pre hvalue hq ht]
            exact iff_of_false Bool.false_ne_true fun h => h (.here hvalue hq ht)
        | false =>
          obtain ⟨head, -, hshort, hturn⟩ := extractFrom_bare pre hvalue hq
          rw [hturn, Option.isSome_map, ih _ (hlen ▸ hshort) _ rfl,
            unclosed_bare_iff hvalue hq]

end Turns

/-- **Which pages do not panic**: those whose quotes are closed. -/
theorem extractLinks_isSome_iff (html : Str) :
    (extractLinks html).isSome = true ↔ ¬ Unclosed html :=
  extractFrom_isSome_iff []

/-- The page ends inside of the value. -/
def cutPage : Str := "<a href=\"gurt://x".toList

theorem extractLinks_cutPage : extractLinks cutPage = none := by
  have hvalue : nextValue cutPage = some ('"' :: "gurt://x".toList) := by decide
  exact extractFrom_unclosed [] hvalue rfl (by decide)

end Gurted.Link
