import Mathlib.Algebra.Ring.Nat
import Mathlib.Data.List.DropRight
import Gurted.Lib.Occurrence

/-!
# Rust strings

A `str`/`String` is the list of its Unicode scalar values. The operations below
are the ones of `core::str` the crates use, under their Rust names; offsets into
a string are byte offsets of its UTF-8 form, as in Rust, so that `find` and the
slicing operations compose the way the source composes them.
-/

namespace Gurted

open Gurted.Lib

/-- A Rust `str`/`String`. -/
abbrev Str := List Char

/-- A Rust `Vec<u8>`/`&[u8]`. -/
abbrev Bytes := List UInt8

namespace Str

/-! ## Characters -/

/-- `char::is_whitespace`: the Unicode property `White_Space`. -/
def isWhitespace (c : Char) : Bool :=
  let n := c.toNat
  (0x09 ≤ n && n ≤ 0x0D) || n == 0x20 || n == 0x85 || n == 0xA0 || n == 0x1680
    || (0x2000 ≤ n && n ≤ 0x200A) || n == 0x2028 || n == 0x2029 || n == 0x202F
    || n == 0x205F || n == 0x3000

/-- `char::is_ascii`. -/
def isAscii (c : Char) : Bool := c.toNat < 128

/-- Two strings are compared by their characters. -/
instance : LawfulBEq Str := inferInstanceAs (LawfulBEq (List Char))

/-! ## Case -/

/-- `str::to_ascii_lowercase` (`Char.toLower` moves `A`-`Z` only). -/
def toAsciiLowercase (s : Str) : Str := s.map Char.toLower

/-- `str::eq_ignore_ascii_case`. -/
def eqIgnoreAsciiCase (s t : Str) : Bool := s.toAsciiLowercase == t.toAsciiLowercase

@[simp] theorem toAsciiLowercase_nil : toAsciiLowercase [] = [] := rfl

@[simp] theorem toAsciiLowercase_cons (c : Char) (s : Str) :
    toAsciiLowercase (c :: s) = c.toLower :: toAsciiLowercase s := rfl

@[simp] theorem toAsciiLowercase_append (s t : Str) :
    toAsciiLowercase (s ++ t) = toAsciiLowercase s ++ toAsciiLowercase t :=
  List.map_append

theorem isUpper_iff (c : Char) : c.isUpper = true ↔ 65 ≤ c.toNat ∧ c.toNat ≤ 90 := by
  show decide (c.val ≥ 'A'.val ∧ c.val ≤ 'Z'.val) = true ↔ _
  simp only [decide_eq_true_eq, ge_iff_le, UInt32.le_iff_toNat_le]
  exact Iff.rfl

theorem isLower_iff (c : Char) : c.isLower = true ↔ 97 ≤ c.toNat ∧ c.toNat ≤ 122 := by
  show (decide (c.val ≥ 'a'.val) && decide (c.val ≤ 'z'.val)) = true ↔ _
  simp only [Bool.and_eq_true, decide_eq_true_eq, ge_iff_le, UInt32.le_iff_toNat_le]
  exact Iff.rfl

/-- `Char.toLower`, by number. -/
theorem toNat_toLower (c : Char) :
    c.toLower.toNat = if 65 ≤ c.toNat ∧ c.toNat ≤ 90 then c.toNat + 32 else c.toNat := by
  have hiff : (c.val ≥ 'A'.val ∧ c.val ≤ 'Z'.val) ↔ 65 ≤ c.toNat ∧ c.toNat ≤ 90 := by
    rw [← isUpper_iff]
    exact decide_eq_true_iff.symm
  by_cases hupper : c.val ≥ 'A'.val ∧ c.val ≤ 'Z'.val
  · have hrange := hiff.mp hupper
    have hval : c.toLower.val = c.val + 32 := by
      delta Char.toLower
      rw [dif_pos hupper]
      rfl
    have h32 : (32 : UInt32).toNat = 32 := rfl
    rw [if_pos hrange]
    simp only [Char.toNat, hval, UInt32.toNat_add, h32] at hrange ⊢
    omega
  · rw [if_neg (hiff.not.mp hupper)]
    delta Char.toLower
    rw [dif_neg hupper]

theorem isWhitespace_toLower (c : Char) : isWhitespace c.toLower = isWhitespace c := by
  rw [isWhitespace, isWhitespace, toNat_toLower]
  split
  · next h =>
    rw [Bool.eq_iff_iff]
    simp only [Bool.or_eq_true, Bool.and_eq_true, decide_eq_true_eq, beq_iff_eq]
    omega
  · rfl

theorem isAscii_toLower (c : Char) : isAscii c.toLower = isAscii c := by
  rw [isAscii, isAscii, toNat_toLower]
  split
  · next h =>
    rw [Bool.eq_iff_iff, decide_eq_true_eq, decide_eq_true_eq]
    omega
  · rfl

theorem toLower_of_not_upper {c : Char} (h : ¬ (65 ≤ c.toNat ∧ c.toNat ≤ 90)) :
    c.toLower = c := by
  refine Char.toNat_inj.mp ?_
  rw [toNat_toLower, if_neg h]

theorem toLower_of_not_ascii {c : Char} (h : isAscii c = false) : c.toLower = c := by
  refine toLower_of_not_upper ?_
  rw [isAscii, decide_eq_false_iff_not] at h
  omega

theorem toLower_toLower (c : Char) : c.toLower.toLower = c.toLower := by
  refine toLower_of_not_upper ?_
  rw [toNat_toLower]
  split <;> omega

theorem toAsciiLowercase_idem (s : Str) :
    s.toAsciiLowercase.toAsciiLowercase = s.toAsciiLowercase := by
  rw [toAsciiLowercase, toAsciiLowercase, List.map_map]
  exact List.map_congr_left fun c _ => toLower_toLower c

theorem toAsciiLowercase_length (s : Str) : (toAsciiLowercase s).length = s.length :=
  List.length_map ..

/-! ## Trimming and searching -/

/-- A test for strings without white space. -/
theorem noWs_of_all {s : Str} (h : s.all (!isWhitespace ·) = true) :
    ∀ c ∈ s, isWhitespace c = false := by
  simpa using h

/-- `str::trim`. -/
def trim (s : Str) : Str := (s.dropWhile isWhitespace).rdropWhile isWhitespace

/-- `str::trim_end_matches` with a character. -/
def trimEndMatches (c : Char) (s : Str) : Str := s.rdropWhile (· == c)

/-- `str::contains` with a string pattern. -/
def contains (s pat : Str) : Bool := (findSub pat s).isSome

/-- `str::starts_with`. -/
def startsWith (s pat : Str) : Bool := pat.isPrefixOf s

/-- The number of bytes of the UTF-8 form. -/
def byteLen (s : Str) : Nat := (s.map Char.utf8Size).sum

/-- `str::find` with a string pattern: the byte offset of the first occurrence. -/
def find (s pat : Str) : Option Nat := (findSub pat s).map fun i => byteLen (s.take i)

/-- `s.split_at(i)` at a byte offset; `none` is the panic of an offset that is
out of range or not on a character boundary. -/
def splitAtByte : Nat → Str → Option (Str × Str)
  | 0, s => some ([], s)
  | _ + 1, [] => none
  | i + 1, c :: s =>
      if c.utf8Size ≤ i + 1 then
        (splitAtByte (i + 1 - c.utf8Size) s).map fun p => (c :: p.1, p.2)
      else none

/-- `&s[i..]`. -/
def sliceFrom (i : Nat) (s : Str) : Option Str := (splitAtByte i s).map Prod.snd

/-- `&s[..i]`. -/
def sliceTo (i : Nat) (s : Str) : Option Str := (splitAtByte i s).map Prod.fst

/-- `str::get` with a range `i..j`. -/
def get (i j : Nat) (s : Str) : Option Str :=
  if i ≤ j then (sliceFrom i s).bind (sliceTo (j - i)) else none

/-- Leading white space does not survive `trim`. -/
theorem trim_cons_of_isWhitespace {c : Char} (h : isWhitespace c = true) (s : Str) :
    trim (c :: s) = trim s := by
  simp [trim, h]

/-- White space on both sides does not survive `trim`. -/
theorem trim_padded {l r : Str} (hl : ∀ c ∈ l, isWhitespace c = true)
    (hr : ∀ c ∈ r, isWhitespace c = true) (s : Str) : trim (l ++ (s ++ r)) = trim s := by
  have hpad : ∀ u : Str, (u ++ r).rdropWhile isWhitespace = u.rdropWhile isWhitespace := by
    intro u
    induction r using List.reverseRecOn with
    | nil => rw [List.append_nil]
    | append_singleton r c ih =>
      rw [← List.append_assoc, List.rdropWhile_concat, if_pos (hr c (by simp))]
      exact ih fun d hd => hr d (by simp [hd])
  induction l with
  | nil =>
    rw [List.nil_append, trim, trim, List.dropWhile_append]
    cases hs : s.dropWhile isWhitespace with
    | nil =>
      have hdrop : r.dropWhile isWhitespace = [] := List.dropWhile_eq_nil_iff.mpr hr
      rw [List.isEmpty_nil, if_pos rfl, hdrop]
    | cons c u =>
      rw [List.isEmpty_cons, if_neg (by simp)]
      exact hpad (c :: u)
  | cons c l ih =>
    rw [List.cons_append, trim_cons_of_isWhitespace (hl c (by simp))]
    exact ih fun d hd => hl d (by simp [hd])

/-- A string without white space at its ends is not trimmed. -/
theorem trim_of_ends {s : Str} (hhead : ∀ c ∈ s.head?, isWhitespace c = false)
    (hlast : ∀ c ∈ s.getLast?, isWhitespace c = false) : trim s = s := by
  have hdrop : s.dropWhile isWhitespace = s := by
    cases s with
    | nil => rfl
    | cons c s => simp [hhead c rfl]
  rw [trim, hdrop, List.rdropWhile_eq_self_iff]
  intro hne
  simp [hlast _ (List.getLast?_eq_some_getLast hne)]

/-- A string without white space is not trimmed. -/
theorem trim_of_noWs {s : Str} (h : ∀ c ∈ s, isWhitespace c = false) : trim s = s :=
  trim_of_ends (fun c hc => h c (List.mem_of_head? hc)) fun c hc => h c (List.mem_of_getLast? hc)

theorem trim_subset (s : Str) : trim s ⊆ s :=
  fun _ hc => (List.dropWhile_sublist _).subset ((List.rdropWhile_prefix _ _).subset hc)

/-! ## Splitting -/

/-- `str::split` with a character predicate. -/
def splitBy (p : Char → Bool) (s : Str) : List Str := s.splitOnP p

/-- `str::split` with a character. -/
def split (c : Char) (s : Str) : List Str := s.splitOnP (· == c)

/-- `str::split_once` with a character. -/
def splitOnce (c : Char) : Str → Option (Str × Str)
  | [] => none
  | x :: s => if x = c then some ([], s) else (splitOnce c s).map fun p => (x :: p.1, p.2)

/-- `str::split_whitespace`. -/
def splitWhitespace (s : Str) : List Str :=
  (s.splitOnP isWhitespace).filter (!·.isEmpty)

/-- `[String]::join`. -/
def join (sep : Str) (ts : List Str) : Str := sep.intercalate ts

/-- One line of `str::lines` without its terminator `\r\n` or `\n`. -/
def stripCr (l : Str) : Str := if l.getLast? = some '\r' then l.dropLast else l

/-- `str::lines`: the pieces between line feeds, a carriage return right before
a line feed belonging to it, and no last line after a final line feed. -/
def lines (s : Str) : List Str :=
  let pieces := s.split '\n'
  pieces.dropLast.map stripCr ++ pieces.getLast?.toList.filter (!·.isEmpty)

/-- A line that is ended comes first, without its end. -/
theorem lines_append_cons {l : Str} (h : '\n' ∉ l) (t : Str) :
    lines (l ++ '\n' :: t) = stripCr l :: lines t := by
  have hmem : ∀ c ∈ l, (c == '\n') = false := by
    intro c hc
    exact beq_eq_false_iff_ne.mpr fun heq => h (heq ▸ hc)
  have hsplit : (l ++ '\n' :: t).split '\n' = l :: t.split '\n' :=
    List.splitOnP_append_cons_of_forall_mem hmem '\n' rfl t
  obtain ⟨piece, pieces, hpieces⟩ :=
    List.exists_cons_of_ne_nil (show t.split '\n' ≠ [] from List.splitOnP_ne_nil _ _)
  rw [lines, lines, hsplit, hpieces]
  simp

/-- A line that ends in `\r\n`. -/
theorem lines_crlf {l : Str} (h : '\n' ∉ l) (t : Str) :
    lines (l ++ '\r' :: '\n' :: t) = l :: lines t := by
  have hcr : stripCr (l ++ ['\r']) = l := by simp [stripCr]
  have hline : '\n' ∉ l ++ ['\r'] := by simp [h]
  rw [List.append_cons, lines_append_cons hline, hcr]

/-- A piece of a split does not hold a separator. -/
theorem not_of_mem_splitBy {p : Char → Bool} {s piece : Str} (h : piece ∈ splitBy p s) :
    ∀ c ∈ piece, p c = false := by
  rw [splitBy] at h
  induction s generalizing piece with
  | nil =>
    rw [List.splitOnP_nil, List.mem_singleton] at h
    rw [h]
    exact List.forall_mem_nil _
  | cons x s ih =>
    rw [List.splitOnP_cons_eq_if_modifyHead] at h
    by_cases hx : p x = true
    · rw [if_pos hx] at h
      rcases List.mem_cons.mp h with rfl | h
      · exact List.forall_mem_nil _
      · exact ih h
    · rw [if_neg hx] at h
      obtain ⟨q, qs, hqs⟩ := List.exists_cons_of_ne_nil (List.splitOnP_ne_nil p s)
      rw [hqs] at h ih
      rcases List.mem_cons.mp h with rfl | h
      · intro c hc
        rcases List.mem_cons.mp hc with rfl | hc
        · exact eq_false_of_ne_true hx
        · exact ih (List.mem_cons_self ..) c hc
      · exact ih (List.mem_cons_of_mem _ h)

/-- A line does not hold the end of one. -/
theorem notMem_of_mem_lines {s l : Str} (h : l ∈ lines s) : '\n' ∉ l := by
  have hpiece : ∀ piece ∈ s.split '\n', '\n' ∉ piece := by
    intro piece hp hmem
    have hnot := not_of_mem_splitBy hp '\n' hmem
    cases hnot
  have hstrip : ∀ piece : Str, stripCr piece ⊆ piece := by
    intro piece
    rw [stripCr]
    split
    · exact List.dropLast_subset piece
    · exact List.Subset.refl piece
  rcases List.mem_append.mp h with h | h
  · obtain ⟨piece, hp, rfl⟩ := List.mem_map.mp h
    exact fun hmem => hpiece piece (List.mem_of_mem_dropLast hp) (hstrip piece hmem)
  · have hlast : l ∈ (s.split '\n').getLast? := Option.mem_toList.mp (List.mem_of_mem_filter h)
    exact hpiece l (List.mem_of_getLast? hlast)

theorem splitOnce_append {c : Char} {s : Str} (h : c ∉ s) (t : Str) :
    splitOnce c (s ++ c :: t) = some (s, t) := by
  induction s with
  | nil => simp [splitOnce]
  | cons x s ih =>
    obtain ⟨hx, hs⟩ := not_or.mp (List.mem_cons.not.mp h)
    simp [splitOnce, Ne.symm hx, ih hs]

theorem splitOnce_eq_some {c : Char} {s k v : Str} (h : splitOnce c s = some (k, v)) :
    s = k ++ c :: v ∧ c ∉ k := by
  induction s generalizing k with
  | nil => cases h
  | cons x s ih =>
    rw [splitOnce] at h
    by_cases hx : x = c
    · rw [if_pos hx] at h
      cases h
      exact ⟨by rw [hx]; rfl, List.not_mem_nil⟩
    · rw [if_neg hx] at h
      obtain ⟨⟨k', v'⟩, hrec, heq⟩ := Option.map_eq_some_iff.mp h
      cases heq
      obtain ⟨rfl, hk⟩ := ih hrec
      refine ⟨rfl, ?_⟩
      intro hmem
      rcases List.mem_cons.mp hmem with heq | hmem
      · exact hx heq.symm
      · exact hk hmem

/-- A token followed by white space is the first token. -/
theorem splitWhitespace_token_cons {t : Str} {c : Char} (ht : t ≠ [])
    (hws : ∀ x ∈ t, isWhitespace x = false) (hc : isWhitespace c = true) (s : Str) :
    splitWhitespace (t ++ c :: s) = t :: splitWhitespace s := by
  have he : t.isEmpty = false := by simpa using ht
  rw [splitWhitespace, List.splitOnP_append_cons_of_forall_mem hws c hc, List.filter_cons]
  simp [he, splitWhitespace]

/-- A string without white space is at most one token. -/
theorem splitWhitespace_token {t : Str} (hws : ∀ x ∈ t, isWhitespace x = false) :
    splitWhitespace t = if t.isEmpty then [] else [t] := by
  rw [splitWhitespace, List.splitOnP_eq_singleton hws]
  cases t <;> simp

/-! ## Tokens -/

/-- The non-empty pieces of a split: the maximal runs of characters that are no
separators. -/
def tokens (p : Char → Bool) (s : Str) : List Str := (s.splitBy p).filter (!·.isEmpty)

theorem splitWhitespace_eq (s : Str) : splitWhitespace s = tokens isWhitespace s := rfl

theorem tokens_append_cons {p : Char → Bool} {c : Char} (h : p c = true) (s t : Str) :
    tokens p (s ++ c :: t) = tokens p s ++ tokens p t := by
  rw [tokens, splitBy, List.splitOnP_append_cons _ _ h, List.filter_append]
  rfl

/-- A string without separators is one token, or none if it is empty. -/
theorem tokens_of_forall_mem {p : Char → Bool} {s : Str} (h : ∀ c ∈ s, p c = false) :
    tokens p s = if s.isEmpty then [] else [s] := by
  rw [tokens, splitBy, List.splitOnP_eq_singleton h]
  cases s <;> rfl

/-- Induction on a string from its first separator on. -/
theorem cut_induction {p : Char → Bool} {motive : Str → Prop}
    (last : ∀ s, (∀ c ∈ s, p c = false) → motive s)
    (cut : ∀ pre c rest, (∀ x ∈ pre, p x = false) → p c = true → motive rest →
      motive (pre ++ c :: rest)) (s : Str) : motive s := by
  induction hn : s.length using Nat.strong_induction_on generalizing s with
  | h n ih =>
    have hspan := List.takeWhile_append_dropWhile (p := fun c => !p c) (l := s)
    have hpre : ∀ c ∈ s.takeWhile (fun c => !p c), p c = false := fun c hc => by
      simpa using List.mem_takeWhile_imp hc
    cases hrest : s.dropWhile (fun c => !p c) with
    | nil =>
      rw [hrest, List.append_nil] at hspan
      exact hspan ▸ last _ hpre
    | cons c rest =>
      have hc : p c = true := by
        have := List.head?_dropWhile_not (fun c => !p c) s
        rw [hrest] at this
        simpa using this
      rw [hrest] at hspan
      have hlt : rest.length < n := by
        rw [← hn, ← hspan, List.length_append, List.length_cons]
        omega
      exact hspan ▸ cut _ c rest hpre hc (ih _ hlt rest rfl)

/-- Splitting in two passes: cutting first at some of the separators does not
change the tokens. -/
theorem flatMap_tokens {p q : Char → Bool} (h : ∀ c, q c = true → p c = true) (s : Str) :
    (tokens q s).flatMap (tokens p) = tokens p s := by
  have hfirst : ∀ pre : Str, (∀ c ∈ pre, q c = false) →
      (tokens q pre).flatMap (tokens p) = tokens p pre := by
    intro pre hpre
    rw [tokens_of_forall_mem hpre]
    cases pre with
    | nil => rfl
    | cons c pre => simp
  induction s using cut_induction (p := q) with
  | last s hs => exact hfirst s hs
  | cut pre c rest hpre hc ih =>
    rw [tokens_append_cons hc, tokens_append_cons (h c hc), List.flatMap_append,
      hfirst pre hpre, ih]

/-- The tokens hold the characters that are no separators. -/
theorem mem_tokens_iff {p : Char → Bool} {c : Char} (s : Str) :
    (∃ t ∈ tokens p s, c ∈ t) ↔ c ∈ s ∧ p c = false := by
  have hfirst : ∀ pre : Str, (∀ x ∈ pre, p x = false) →
      ((∃ t ∈ tokens p pre, c ∈ t) ↔ c ∈ pre ∧ p c = false) := by
    intro pre hpre
    rw [tokens_of_forall_mem hpre]
    cases pre with
    | nil => simp
    | cons x pre => simpa using fun h => hpre c (List.mem_cons.mpr h)
  induction s using cut_induction (p := p) with
  | last s hs => exact hfirst s hs
  | cut pre x rest hpre hx ih =>
    rw [tokens_append_cons hx]
    simp only [List.mem_append, or_and_right, exists_or, hfirst pre hpre, ih, List.mem_cons]
    constructor
    · rintro (h | h)
      · exact .inl h
      · exact .inr (.inr h)
    · rintro (h | ⟨rfl, hc⟩ | h)
      · exact .inl h
      · rw [hx] at hc
        cases hc
      · exact .inr h

/-- A token stands somewhere in the string. -/
theorem exists_of_mem_tokens {p : Char → Bool} {s t : Str} (h : t ∈ tokens p s) :
    ∃ u v, s = u ++ t ++ v := by
  have hfirst : ∀ pre : Str, (∀ x ∈ pre, p x = false) → t ∈ tokens p pre → t = pre := by
    intro pre hpre ht
    rw [tokens_of_forall_mem hpre] at ht
    split at ht
    · cases ht
    · exact List.mem_singleton.mp ht
  induction s using cut_induction (p := p) with
  | last s hs => exact ⟨[], [], by simp [hfirst s hs h]⟩
  | cut pre c rest hpre hc ih =>
    rw [tokens_append_cons hc] at h
    rcases List.mem_append.mp h with h | h
    · exact ⟨[], c :: rest, by simp [hfirst pre hpre h]⟩
    · obtain ⟨u, v, rfl⟩ := ih h
      exact ⟨pre ++ c :: u, v, by simp⟩

theorem contains_of_mem_tokens {p : Char → Bool} {s t : Str} (h : t ∈ tokens p s) :
    s.contains t = true := by
  obtain ⟨u, v, rfl⟩ := exists_of_mem_tokens h
  rw [contains, Option.isSome_iff_ne_none]
  intro hnone
  exact findSub_eq_none_iff.mp hnone u.length
    ⟨by simp, by rw [List.append_assoc, List.drop_left]; exact List.prefix_append _ _⟩

/-- A change of characters that keeps the separators changes the tokens. -/
theorem tokens_map {p : Char → Bool} {f : Char → Char} (h : ∀ c, p (f c) = p c) (s : Str) :
    tokens p (s.map f) = (tokens p s).map (List.map f) := by
  have hfirst : ∀ pre : Str, (∀ c ∈ pre, p c = false) →
      tokens p (pre.map f) = (tokens p pre).map (List.map f) := by
    intro pre hpre
    have hmap : ∀ c ∈ pre.map f, p c = false := by
      intro c hc
      obtain ⟨x, hx, rfl⟩ := List.mem_map.mp hc
      rw [h]
      exact hpre x hx
    rw [tokens_of_forall_mem hpre, tokens_of_forall_mem hmap]
    cases pre <;> rfl
  induction s using cut_induction (p := p) with
  | last s hs => exact hfirst s hs
  | cut pre c rest hpre hc ih =>
    have hfc : p (f c) = true := (h c).trans hc
    rw [List.map_append, List.map_cons, tokens_append_cons hfc, tokens_append_cons hc,
      List.map_append, hfirst pre hpre, ih]

/-! ## Joining -/

theorem toAsciiLowercase_join (sep : Str) (ts : List Str) :
    (join sep ts).toAsciiLowercase
      = join sep.toAsciiLowercase (ts.map toAsciiLowercase) := by
  induction ts with
  | nil => rfl
  | cons t ts ih =>
    cases ts with
    | nil => simp [join]
    | cons u ts =>
      simp only [join, List.map_cons, List.intercalate_cons_cons] at ih ⊢
      simp only [toAsciiLowercase_append, ih]

/-- Tokens joined by spaces split into the same tokens. -/
theorem splitWhitespace_join {ts : List Str}
    (h : ∀ t ∈ ts, t ≠ [] ∧ ∀ c ∈ t, isWhitespace c = false) :
    splitWhitespace (join [' '] ts) = ts := by
  induction ts with
  | nil => rfl
  | cons t ts ih =>
    obtain ⟨hne, hws⟩ := h t (by simp)
    cases ts with
    | nil =>
      have he : t.isEmpty = false := by simpa using hne
      rw [join, List.intercalate_singleton, splitWhitespace_token hws, he]
      rfl
    | cons u ts =>
      have hrec := ih fun x hx => h x (by simp [hx])
      rw [join, List.intercalate_cons_cons, List.append_assoc, List.singleton_append, ← join,
        splitWhitespace_token_cons hne hws (by decide), hrec]

end Str

end Gurted
