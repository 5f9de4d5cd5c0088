import Gurted.Std.Unicode

/-!
# Text analysis (`gurt-index/src/tantivy.rs`)

The two pipelines that turn text into index terms: `analyze_terms`, which the
query side runs on its terms, and the analyzer registered as `en_stops`, which
Tantivy runs on titles and contents. `analyzeTerms_eq_enStops_iff` says on which
texts they agree.
-/

namespace Gurted.Index

open Gurted

variable (U : CharTables)

/-! ## The pipelines -/

/-- The stopwords, in the order both lists of the source have them. -/
def stopwords : List Str :=
  ["a", "an", "the", "and", "or", "of", "in", "to", "for", "on", "with", "is", "it", "this",
    "that", "by", "be", "as", "at", "from"].map String.toList

def isStopword (t : Str) : Bool := stopwords.contains t

/-- The pieces between characters that are not alphanumeric. -/
def notAlphanumeric (c : Char) : Bool := !U.isAlphanumeric c

/-- `analyze_terms`. -/
def analyzeTerms (rawTerms : List Str) : List Str :=
  rawTerms.flatMap fun term =>
    ((Str.splitBy (notAlphanumeric U) term).map Str.toAsciiLowercase).filter fun t =>
      !t.isEmpty && !isStopword t

/-- `SimpleTokenizer`: the maximal runs of alphanumeric characters. -/
def simpleTokenizer (s : Str) : List Str := Str.tokens (notAlphanumeric U) s

/-- `LowerCaser`: Unicode lower case, character by character. -/
def lowerCaser (t : Str) : Str := t.flatMap U.toLowercase

/-- `StopWordFilter::remove`. -/
def stopWordFilter (ts : List Str) : List Str := ts.filter fun t => !isStopword t

/-- The analyzer of `register_tokenizer_en`. -/
def enStops (s : Str) : List Str :=
  stopWordFilter ((simpleTokenizer U s).map (lowerCaser U))

/-! ## Both as one pass over the tokens -/

theorem stopWordFilter_append (ts us : List Str) :
    stopWordFilter (ts ++ us) = stopWordFilter ts ++ stopWordFilter us :=
  List.filter_append ..

theorem analyzeTerms_eq (rawTerms : List Str) :
    analyzeTerms U rawTerms
      = stopWordFilter ((rawTerms.flatMap (simpleTokenizer U)).map Str.toAsciiLowercase) := by
  induction rawTerms with
  | nil => rfl
  | cons term rawTerms ih =>
    have hempty : ∀ t : Str, t.toAsciiLowercase.isEmpty = t.isEmpty := by
      intro t
      cases t <;> rfl
    have hterm : ((Str.splitBy (notAlphanumeric U) term).map Str.toAsciiLowercase).filter
          (fun t => !t.isEmpty && !isStopword t)
        = stopWordFilter ((simpleTokenizer U term).map Str.toAsciiLowercase) := by
      rw [stopWordFilter, simpleTokenizer, Str.tokens, List.filter_map, List.filter_map,
        List.filter_filter]
      simp only [Function.comp_def, hempty, Bool.and_comm]
    have hsplit : analyzeTerms U (term :: rawTerms)
        = stopWordFilter ((simpleTokenizer U term).map Str.toAsciiLowercase)
          ++ analyzeTerms U rawTerms := by
      rw [analyzeTerms, List.flatMap_cons, hterm]
      rfl
    rw [hsplit, ih, List.flatMap_cons, List.map_append, stopWordFilter_append]

/-- White space separates tokens anyway. -/
theorem analyzeTerms_splitWhitespace (s : Str) :
    analyzeTerms U (Str.splitWhitespace s)
      = stopWordFilter ((simpleTokenizer U s).map Str.toAsciiLowercase) := by
  rw [analyzeTerms_eq, Str.splitWhitespace_eq]
  have hcut := Str.flatMap_tokens (p := notAlphanumeric U) (q := Str.isWhitespace)
    (fun c hc => by rw [notAlphanumeric, U.not_alphanumeric_ws c hc]; rfl) s
  exact congrArg (fun ts => stopWordFilter (ts.map Str.toAsciiLowercase)) hcut

/-- The case of ASCII letters in the terms does not matter. -/
theorem analyzeTerms_toAsciiLowercase (rawTerms : List Str) :
    analyzeTerms U (rawTerms.map Str.toAsciiLowercase) = analyzeTerms U rawTerms := by
  have hsep : ∀ c : Char, notAlphanumeric U c.toLower = notAlphanumeric U c := fun c => by
    rw [notAlphanumeric, notAlphanumeric, U.isAlphanumeric_toLower]
  have hterm : ∀ term : Str,
      (simpleTokenizer U term.toAsciiLowercase).map Str.toAsciiLowercase
        = (simpleTokenizer U term).map Str.toAsciiLowercase := by
    intro term
    have hlower := Str.tokens_map hsep term
    rw [simpleTokenizer, Str.toAsciiLowercase, hlower, List.map_map]
    exact List.map_congr_left fun t _ => Str.toAsciiLowercase_idem t
  rw [analyzeTerms_eq, analyzeTerms_eq, List.flatMap_map, List.map_flatMap, List.map_flatMap]
  simp only [hterm]

/-! ## Where they differ -/

/-- Every stopword is ASCII and has no `k`. -/
theorem isStopword_chars {t : Str} (h : isStopword t = true) :
    ∀ c ∈ t, Str.isAscii c = true ∧ c ≠ 'k' := by
  have hall : (stopwords.all fun w => w.all fun c => Str.isAscii c && c != 'k') = true := by decide
  intro c hc
  have hchar := List.all_eq_true.mp (List.all_eq_true.mp hall t (List.contains_iff_mem.mp h)) c hc
  simpa using hchar

theorem lowerCaser_ascii {t : Str} (h : ∀ c ∈ t, Str.isAscii c = true) :
    lowerCaser U t = t.toAsciiLowercase := by
  induction t with
  | nil => rfl
  | cons c t ih =>
    have hrec := ih fun x hx => h x (by simp [hx])
    rw [lowerCaser, List.flatMap_cons, U.lowercase_ascii c (h c (by simp)), ← lowerCaser, hrec]
    rfl

/-- Both pipelines drop the same tokens: a stopword filter never sees anything
but ASCII letters of ASCII tokens. -/
theorem isStopword_lowerCaser (t : Str) :
    isStopword (lowerCaser U t) = isStopword t.toAsciiLowercase := by
  by_cases hascii : ∀ c ∈ t, Str.isAscii c = true
  · rw [lowerCaser_ascii U hascii]
  · obtain ⟨c, hc, hnot⟩ : ∃ c ∈ t, Str.isAscii c = false := by simpa using hascii
    have hquery : isStopword t.toAsciiLowercase = false := by
      refine Bool.eq_false_iff.mpr fun hstop => ?_
      have hmem : c ∈ t.toAsciiLowercase :=
        List.mem_map.mpr ⟨c, hc, Str.toLower_of_not_ascii hnot⟩
      rw [(isStopword_chars hstop c hmem).1] at hnot
      cases hnot
    have hindex : isStopword (lowerCaser U t) = false := by
      refine Bool.eq_false_iff.mpr fun hstop => ?_
      have hchars := fun x hx => isStopword_chars hstop x (List.mem_flatMap.mpr ⟨c, hc, hx⟩)
      rcases U.lowercase_not_ascii c hnot with hk | ⟨x, hx, hxnot⟩
      · exact (hchars 'k' (by rw [hk]; simp)).2 rfl
      · rw [(hchars x hx).1] at hxnot
        cases hxnot
    rw [hquery, hindex]

/-- A token has the same form in both pipelines exactly if the lower case of its
characters outside ASCII is the character itself. -/
theorem toAsciiLowercase_eq_lowerCaser_iff (t : Str) :
    t.toAsciiLowercase = lowerCaser U t ↔
      ∀ c ∈ t, Str.isAscii c = false → U.toLowercase c = [c] := by
  induction t with
  | nil => simp [lowerCaser]
  | cons c t ih =>
    have hsplit : lowerCaser U (c :: t) = U.toLowercase c ++ lowerCaser U t := rfl
    rw [Str.toAsciiLowercase_cons, hsplit, List.forall_mem_cons, ← ih]
    constructor
    · intro h
      -- every character has at least one, so the two lists pair up
      have hlen : ∀ u : Str, u.length ≤ (lowerCaser U u).length := by
        intro u
        induction u with
        | nil => exact Nat.le_refl _
        | cons x u ihu =>
          have hx := List.length_pos_iff.mpr (U.lowercase_ne_nil x)
          have hu : lowerCaser U (x :: u) = U.toLowercase x ++ lowerCaser U u := rfl
          rw [hu, List.length_append, List.length_cons]
          omega
      have hc := List.length_pos_iff.mpr (U.lowercase_ne_nil c)
      have htotal := congrArg List.length h
      rw [List.length_cons, List.length_append, Str.toAsciiLowercase_length] at htotal
      have hone : (U.toLowercase c).length = 1 := by
        have := hlen t
        omega
      obtain ⟨x, hx⟩ := List.length_eq_one_iff.mp hone
      rw [hx, List.singleton_append, List.cons.injEq] at h
      refine ⟨fun hnot => ?_, h.2⟩
      rw [hx, ← h.1, Str.toLower_of_not_ascii hnot]
    · intro hboth
      obtain ⟨hc, ht⟩ := hboth
      cases hascii : Str.isAscii c with
      | true => rw [U.lowercase_ascii c hascii, ht]; rfl
      | false => rw [hc hascii, Str.toLower_of_not_ascii hascii, ht]; rfl

/-- **When index and query agree.** For every text: the terms `analyze_terms`
makes of its white space separated pieces are those of `en_stops` if and only if
the text has no alphanumeric character outside ASCII that lower-casing changes. -/
theorem analyzeTerms_eq_enStops_iff (s : Str) :
    analyzeTerms U (Str.splitWhitespace s) = enStops U s ↔
      ∀ c ∈ s, U.isAlphanumeric c = true → Str.isAscii c = false → U.toLowercase c = [c] := by
  have hkept : ∀ f : Str → Str, (∀ t, isStopword (f t) = isStopword t.toAsciiLowercase) →
      stopWordFilter ((simpleTokenizer U s).map f)
        = ((simpleTokenizer U s).filter fun t => !isStopword t.toAsciiLowercase).map f := by
    intro f hf
    rw [stopWordFilter, List.filter_map]
    simp only [Function.comp_def, hf]
  rw [analyzeTerms_splitWhitespace, enStops, hkept _ fun t => rfl,
    hkept _ (isStopword_lowerCaser U), List.map_inj_left]
  constructor
  · intro h c hc halnum hnot
    obtain ⟨t, ht, hct⟩ := (Str.mem_tokens_iff (p := notAlphanumeric U) s).mpr
      ⟨hc, by rw [notAlphanumeric, halnum]; rfl⟩
    -- the token is kept: it holds a character that no stopword has
    have hstop : isStopword t.toAsciiLowercase = false := by
      refine Bool.eq_false_iff.mpr fun hstop => ?_
      have hmem : c ∈ t.toAsciiLowercase :=
        List.mem_map.mpr ⟨c, hct, Str.toLower_of_not_ascii hnot⟩
      rw [(isStopword_chars hstop c hmem).1] at hnot
      cases hnot
    have heq := h t (List.mem_filter.mpr ⟨ht, by simp [hstop]⟩)
    exact (toAsciiLowercase_eq_lowerCaser_iff U t).mp heq c hct hnot
  · intro h t ht
    refine (toAsciiLowercase_eq_lowerCaser_iff U t).mpr fun c hc hnot => ?_
    obtain ⟨hmem, halnum⟩ := (Str.mem_tokens_iff (p := notAlphanumeric U) s).mp
      ⟨t, (List.mem_filter.mp ht).1, hc⟩
    exact h c hmem (by simpa [notAlphanumeric] using halnum) hnot

/-- An indexed `É` is stored as `é`, and a query for it looks for `É`. -/
theorem analyzeTerms_ne_enStops_latin1 :
    analyzeTerms .latin1 (Str.splitWhitespace ['É']) ≠ enStops .latin1 ['É'] := by
  decide

end Gurted.Index
