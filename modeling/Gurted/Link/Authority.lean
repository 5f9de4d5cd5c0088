import Mathlib.Data.Char
import Mathlib.Data.List.Lex
import Gurted.Std.Decimal
import Gurted.Std.Slice
import Gurted.Std.StrMap

/-!
# The authority store (`gurtd/src/link/mod.rs`)

`to_json` writes one line for each URL, `from_json` reads line by line up to the next
quote. The URL is written as it is, so `roundTrips_iff` comes out at the URLs that do
not hold what the reader takes for structure. Scores are not rounded; `none` is the
panic of a slice.
-/

namespace Gurted.Link

open Gurted

/-- `AuthorityStore`. -/
structure AuthorityStore where
  map : StrMap ExactFloat

namespace AuthorityStore

def new : AuthorityStore := ⟨∅⟩

def set (s : AuthorityStore) (url : Str) (score : ExactFloat) : AuthorityStore :=
  ⟨s.map.insert url score⟩

def get (s : AuthorityStore) (url : Str) : Option ExactFloat := s.map.lookup url

/-- The score of the `i`-th of `n` items, and the comma between two of them. -/
def itemValue (n i : Nat) (score : ExactFloat) : Str :=
  let comma := if i + 1 = n then [] else [',']
  Str.formatSix score ++ comma

/-- The line of an item, without its end. -/
def itemLine (n i : Nat) (url : Str) (score : ExactFloat) : Str :=
  "  \"".toList ++ (url ++ ("\": ".toList ++ itemValue n i score))

/-- `to_json`. -/
def toJson (s : AuthorityStore) : Str :=
  let items := s.map.entries.mergeSort fun a b => a.1 ≤ b.1
  let text := items.zipIdx.flatMap fun item =>
    itemLine items.length item.2 item.1.1 item.1.2 ++ ['\n']
  "\x7b\n".toList ++ (text ++ "\x7d\n".toList)

/-- One turn of the loop of `from_json`: the item of a line that has one. -/
def readLine (line : Str) : Option (Option (Str × ExactFloat)) :=
  let line := line.trim
  if line.startsWith ['"'] then do
    let body ← line.sliceFrom 1
    match Str.splitOnce '"' body with
    | none => return none
    | some (k, rest) =>
        match rest.find ":".toList with
        | none => return none
        | some colon => do
            let val ← rest.sliceFrom (colon + 1)
            return (Str.parseExact (Str.trimEndMatches ',' val.trim)).map fun val => (k, val)
  else some none

/-- The store after a line. -/
def readInto (out : AuthorityStore) (line : Str) : Option AuthorityStore :=
  (readLine line).map fun item => item.elim out fun p => out.set p.1 p.2

/-- `from_json`. -/
def fromJson (s : Str) : Option AuthorityStore := (Str.lines s).foldlM readInto new

/-! ## The reader -/

/-- A URL that both sides take for a URL. -/
def IsPlain (url : Str) : Prop := '"' ∉ url ∧ '\n' ∉ url

/-- What a line can come to: no slice panics, and the URL of an item ends before the
first quote. -/
theorem readLine_cases {line : Str} (hline : '\n' ∉ line) :
    readLine line = some none ∨ ∃ k val, readLine line = some (some (k, val)) ∧ IsPlain k := by
  have htrim : '\n' ∉ line.trim := fun hmem => hline (Str.trim_subset line hmem)
  rw [readLine]
  by_cases hquote : line.trim.startsWith ['"'] = true
  · obtain ⟨body, hbody⟩ := List.isPrefixOf_iff_prefix.mp hquote
    rw [← hbody] at htrim
    have hslice : Str.sliceFrom 1 (['"'] ++ body) = some body := Str.sliceFrom_append ['"'] body
    rw [if_pos hquote]
    simp only [← hbody, hslice, Option.bind_eq_bind, Option.bind_some]
    cases hsplit : Str.splitOnce '"' body with
    | none => exact .inl rfl
    | some kr =>
      obtain ⟨k, rest⟩ := kr
      obtain ⟨heq, hk⟩ := Str.splitOnce_eq_some hsplit
      have hplain : IsPlain k := by
        refine ⟨hk, ?_⟩
        intro hmem
        exact htrim (by rw [heq]; simp [hmem])
      cases hcolon : Str.find rest ":".toList with
      | none => exact .inl (by simp only [hcolon]; rfl)
      | some colon =>
        obtain ⟨u, v, hrest, -, rfl⟩ := Str.exists_of_find hcolon
        have hone : Str.byteLen u + 1 = Str.byteLen u + Str.byteLen ":".toList := rfl
        simp only [hcolon, hone]
        rw [hrest, Str.sliceFrom_append_append, Option.bind_some]
        cases hval : Str.parseExact (Str.trimEndMatches ',' v.trim) with
        | none => exact .inl rfl
        | some val => exact .inr ⟨k, val, rfl, hplain⟩
  · rw [if_neg hquote]
    exact .inl rfl

/-- The loop comes to an end without a panic, and every URL it sets is plain. -/
theorem foldlM_readInto {lines : List Str} (hlines : ∀ line ∈ lines, '\n' ∉ line)
    {out : AuthorityStore} (hout : ∀ k ∈ out.map, IsPlain k) :
    ∃ r, lines.foldlM readInto out = some r ∧ ∀ k ∈ r.map, IsPlain k := by
  induction lines generalizing out with
  | nil => exact ⟨out, rfl, hout⟩
  | cons line lines ih =>
    obtain ⟨hline, hrest⟩ := List.forall_mem_cons.mp hlines
    rw [List.foldlM_cons]
    rcases readLine_cases hline with hnone | ⟨k, val, hitem, hk⟩
    · rw [readInto, hnone]
      exact ih hrest hout
    · rw [readInto, hitem]
      apply ih hrest
      intro k' hk'
      rcases (AList.mem_insert _).mp hk' with rfl | hk'
      · exact hk
      · exact hout k' hk'

theorem exists_fromJson (s : Str) : ∃ r, fromJson s = some r ∧ ∀ k ∈ r.map, IsPlain k :=
  foldlM_readInto (fun _ h => Str.notMem_of_mem_lines h) fun k hk => by cases hk

/-! ## The writer -/

section Item

variable {n i : Nat} {z : ℤ}

theorem itemValue_cases : itemValue n i (.millionths z) = Str.formatSix (.millionths z) ∨
    itemValue n i (.millionths z) = Str.formatSix (.millionths z) ++ [','] := by
  rw [itemValue]
  split
  · exact .inl (List.append_nil _)
  · exact .inr rfl

theorem itemValue_ne_nil : itemValue n i (.millionths z) ≠ [] :=
  List.append_ne_nil_of_left_ne_nil (Str.formatSix_ne_nil z) _

theorem itemValue_noWs : ∀ c ∈ itemValue n i (.millionths z), Str.isWhitespace c = false := by
  have hnumber : ∀ c ∈ Str.formatSix (.millionths z), Str.isWhitespace c = false := by
    intro c hc
    have hnum := Str.isNumeral_formatSix hc
    simp only [Str.isNumeral, Bool.or_eq_true, beq_iff_eq] at hnum
    rcases hnum with (hdigit | rfl) | rfl
    · exact Str.isWhitespace_of_isDigit hdigit
    · rfl
    · rfl
  intro c hc
  rcases itemValue_cases (n := n) (i := i) (z := z) with heq | heq
  · exact hnumber c (heq ▸ hc)
  · rw [heq] at hc
    rcases List.mem_append.mp hc with hc | hc
    · exact hnumber c hc
    · rw [List.mem_singleton.mp hc]
      rfl

/-- The comma is cut off, and the number is read. -/
theorem parseExact_itemValue :
    Str.parseExact (Str.trimEndMatches ',' (itemValue n i (.millionths z)))
      = some (.millionths z) := by
  have hself : Str.trimEndMatches ',' (Str.formatSix (.millionths z))
      = Str.formatSix (.millionths z) := by
    rw [Str.trimEndMatches, List.rdropWhile_eq_self_iff]
    intro hne hlast
    have hnum := Str.isNumeral_formatSix (List.getLast_mem hne)
    rw [beq_iff_eq.mp hlast] at hnum
    cases hnum
  have hcut : Str.trimEndMatches ',' (itemValue n i (.millionths z))
      = Str.formatSix (.millionths z) := by
    rcases itemValue_cases (n := n) (i := i) (z := z) with heq | heq
    · rw [heq, hself]
    · rw [heq, Str.trimEndMatches, List.rdropWhile_concat, if_pos (beq_self_eq_true ',')]
      exact hself
  rw [hcut, Str.parseExact_formatSix]

theorem getLast?_append_itemValue (t : Str) :
    ∀ c ∈ (t ++ itemValue n i (.millionths z)).getLast?, Str.isWhitespace c = false := by
  intro c hc
  rw [List.getLast?_append_of_ne_nil _ itemValue_ne_nil] at hc
  exact itemValue_noWs c (List.mem_of_getLast? hc)

variable {url : Str}

/-- **A line is read as it was written** when its URL is plain. -/
theorem readLine_itemLine (hurl : IsPlain url) :
    readLine (itemLine n i url (.millionths z)) = some (some (url, .millionths z)) := by
  have htail := itemValue_noWs (n := n) (i := i) (z := z)
  have hlast := getLast?_append_itemValue (n := n) (i := i) (z := z)
    (['"'] ++ (url ++ ['"', ':', ' ']))
  have hparse := parseExact_itemValue (n := n) (i := i) (z := z)
  rw [itemLine]
  generalize itemValue n i (.millionths z) = tail at htail hlast hparse
  -- without the indentation the line starts with the quote and ends with the value
  have htrim : Str.trim ("  \"".toList ++ (url ++ ("\": ".toList ++ tail)))
      = ['"'] ++ (url ++ ('"' :: ([':'] ++ ' ' :: tail))) := by
    have hpad := Str.trim_padded (l := [' ', ' ']) (r := []) (List.all_eq_true.mp (by decide))
      (List.forall_mem_nil _) (['"'] ++ (url ++ ('"' :: ([':'] ++ ' ' :: tail))))
    rw [List.append_nil] at hpad
    refine hpad.trans (Str.trim_of_ends ?_ ?_)
    · intro c hc
      cases hc
      rfl
    · rw [List.append_assoc, List.append_assoc] at hlast
      exact hlast
  have hquote : Str.startsWith (['"'] ++ (url ++ ('"' :: ([':'] ++ ' ' :: tail)))) ['"'] = true :=
    rfl
  have hbody : ∀ t, Str.sliceFrom 1 (['"'] ++ t) = some t := Str.sliceFrom_append ['"']
  have hcolon : ∀ t, Str.find ([':'] ++ t) ":".toList = some 0 := fun _ => rfl
  have hval : ∀ t, Str.sliceFrom (0 + 1) ([':'] ++ t) = some t := Str.sliceFrom_append [':']
  have hspace : Str.isWhitespace ' ' = true := rfl
  rw [readLine, htrim, if_pos hquote]
  simp only [hbody, Option.bind_eq_bind, Option.bind_some, Str.splitOnce_append hurl.1, hcolon,
    hval, Str.trim_cons_of_isWhitespace hspace, Str.trim_of_noWs htail, hparse]
  rfl

/-- It is one line of the text. -/
theorem lines_itemLine (hurl : IsPlain url) (t : Str) :
    Str.lines (itemLine n i url (.millionths z) ++ '\n' :: t)
      = itemLine n i url (.millionths z) :: Str.lines t := by
  have hlast := getLast?_append_itemValue (n := n) (i := i) (z := z)
    ("  \"".toList ++ (url ++ "\": ".toList))
  rw [List.append_assoc, List.append_assoc] at hlast
  have hmem : '\n' ∉ itemLine n i url (.millionths z) := by
    intro hmem
    rcases List.mem_append.mp hmem with hmem | hmem
    · exact absurd hmem (by decide)
    · rcases List.mem_append.mp hmem with hmem | hmem
      · exact hurl.2 hmem
      · rcases List.mem_append.mp hmem with hmem | hmem
        · exact absurd hmem (by decide)
        · exact absurd (itemValue_noWs _ hmem) (by decide)
  have hcr : Str.stripCr (itemLine n i url (.millionths z))
      = itemLine n i url (.millionths z) := by
    rw [Str.stripCr, if_neg]
    intro hcr
    exact absurd (hlast '\r' hcr) (by decide)
  rw [Str.lines_append_cons hmem, hcr]

end Item

/-! ## All lines -/

/-- An item as the writer has it: a plain URL and a score of six places. -/
def Writable (item : ((_ : Str) × ExactFloat) × Nat) : Prop :=
  IsPlain item.1.1 ∧ ∃ z, item.1.2 = .millionths z

theorem lines_items {n : Nat} {items : List (((_ : Str) × ExactFloat) × Nat)}
    (h : ∀ item ∈ items, Writable item) (t : Str) :
    Str.lines (items.flatMap (fun item => itemLine n item.2 item.1.1 item.1.2 ++ ['\n']) ++ t)
      = items.map (fun item => itemLine n item.2 item.1.1 item.1.2) ++ Str.lines t := by
  induction items with
  | nil => rfl
  | cons item items ih =>
    obtain ⟨⟨hurl, z, hz⟩, hrest⟩ := List.forall_mem_cons.mp h
    rw [List.flatMap_cons, List.map_cons, List.append_assoc, List.append_assoc, hz,
      List.singleton_append, lines_itemLine hurl, ih hrest]
    rfl

/-- The reader sets the items one after the other. -/
theorem foldlM_items {n : Nat} {items : List (((_ : Str) × ExactFloat) × Nat)}
    (h : ∀ item ∈ items, Writable item) (out : AuthorityStore) :
    (items.map fun item => itemLine n item.2 item.1.1 item.1.2).foldlM readInto out
      = some ⟨items.foldl (fun map item => map.insert item.1.1 item.1.2) out.map⟩ := by
  induction items generalizing out with
  | nil => rfl
  | cons item items ih =>
    obtain ⟨⟨hurl, z, hz⟩, hrest⟩ := List.forall_mem_cons.mp h
    rw [List.map_cons, List.foldlM_cons, List.foldl_cons, readInto, hz, readLine_itemLine hurl]
    exact ih hrest (out.set item.1.1 (.millionths z))

/-- The first and the last line hold no item. -/
theorem fromJson_items {n : Nat} {items : List (((_ : Str) × ExactFloat) × Nat)}
    (h : ∀ item ∈ items, Writable item) :
    fromJson ("\x7b\n".toList ++ (items.flatMap (fun item =>
        itemLine n item.2 item.1.1 item.1.2 ++ ['\n']) ++ "\x7d\n".toList))
      = some ⟨items.foldl (fun map item => map.insert item.1.1 item.1.2) ∅⟩ := by
  have hopen : ∀ out, readInto out ['{'] = some out := fun _ => rfl
  have hclose : ∀ out, readInto out ['}'] = some out := fun _ => rfl
  have hlast : Str.lines "\x7d\n".toList = [['}']] := by decide
  have hfirst : ∀ t, Str.lines ("\x7b\n".toList ++ t) = ['{'] :: Str.lines t :=
    Str.lines_append_cons (l := ['{']) (by decide)
  rw [fromJson, hfirst, lines_items h, hlast, List.foldlM_cons, hopen, Option.bind_eq_bind,
    Option.bind_some, List.foldlM_append, foldlM_items h, Option.bind_eq_bind, Option.bind_some,
    List.foldlM_cons, hclose]
  rfl

/-! ## The round trip -/

/-- Writing and reading give the same URLs with the same scores. -/
def RoundTrips (s : AuthorityStore) : Prop :=
  ∃ r, fromJson (toJson s) = some r ∧ ∀ url, r.get url = s.get url

/-- What is read back holds plain URLs only. -/
theorem RoundTrips.isPlain {s : AuthorityStore} (h : s.RoundTrips) :
    ∀ url ∈ s.map, IsPlain url := by
  obtain ⟨r, hr, hget⟩ := h
  obtain ⟨r', hr', hplain⟩ := exists_fromJson (toJson s)
  rw [hr] at hr'
  cases hr'
  intro url hurl
  apply hplain
  rw [← AList.lookup_isSome]
  show (r.get url).isSome = true
  rw [hget]
  exact AList.lookup_isSome.mpr hurl

theorem roundTrips_of_isPlain {s : AuthorityStore} (hplain : ∀ url ∈ s.map, IsPlain url)
    (hscores : ∀ url score, s.get url = some score → ∃ z, score = .millionths z) :
    s.RoundTrips := by
  have hperm : (s.map.entries.mergeSort fun a b => a.1 ≤ b.1).Perm s.map.entries :=
    List.mergeSort_perm _ _
  generalize hitems : (s.map.entries.mergeSort fun a b => a.1 ≤ b.1) = items at hperm
  have hwritable : ∀ item ∈ items.zipIdx, Writable item := by
    intro item hitem
    have hin : item.1 ∈ items.zipIdx.map Prod.fst := List.mem_map_of_mem hitem
    rw [List.zipIdx_map_fst] at hin
    have hget : s.map.lookup item.1.1 = some item.1.2 :=
      AList.mem_lookup_iff.mpr (hperm.mem_iff.mp hin)
    refine ⟨hplain item.1.1 (AList.lookup_isSome.mp ?_), hscores _ _ hget⟩
    rw [hget]
    rfl
  -- the position of an item decides about its comma only
  have hfold : items.zipIdx.foldl (fun map item => map.insert item.1.1 item.1.2)
      (∅ : StrMap ExactFloat) = items.foldl (fun map item => map.insert item.1 item.2) ∅ := by
    conv_rhs => rw [← List.zipIdx_map_fst 0 items]
    rw [List.foldl_map]
  have hread : fromJson (toJson s)
      = some ⟨items.foldl (fun map item => map.insert item.1 item.2) ∅⟩ := by
    rw [toJson, hitems, ← hfold]
    exact fromJson_items hwritable
  exact ⟨_, hread, StrMap.lookup_foldl_entries hperm⟩

/-! ## Stores that were filled by `set` -/

/-- The store of a sequence of `set` calls, with scores in millionths. -/
def ofSets (calls : List (Str × ℤ)) : AuthorityStore :=
  calls.foldl (fun s call => s.set call.1 (.millionths call.2)) new

theorem ofSets_concat (calls : List (Str × ℤ)) (call : Str × ℤ) :
    ofSets (calls ++ [call]) = (ofSets calls).set call.1 (.millionths call.2) := by
  rw [ofSets, List.foldl_append]
  rfl

theorem mem_ofSets (calls : List (Str × ℤ)) (url : Str) :
    url ∈ (ofSets calls).map ↔ ∃ call ∈ calls, call.1 = url := by
  induction calls using List.reverseRecOn with
  | nil => simp [ofSets, new]
  | append_singleton calls call ih =>
    rw [ofSets_concat, set, AList.mem_insert, ih]
    constructor
    · intro h
      rcases h with rfl | ⟨c, hc, rfl⟩
      · exact ⟨call, by simp, rfl⟩
      · exact ⟨c, by simp [hc], rfl⟩
    · intro h
      obtain ⟨c, hc, rfl⟩ := h
      rcases List.mem_append.mp hc with hc | hc
      · exact .inr ⟨c, hc, rfl⟩
      · exact .inl (by rw [List.mem_singleton.mp hc])

theorem millionths_of_get_ofSets (calls : List (Str × ℤ)) {url : Str} {score : ExactFloat}
    (h : (ofSets calls).get url = some score) : ∃ z, score = .millionths z := by
  induction calls using List.reverseRecOn with
  | nil => cases h
  | append_singleton calls call ih =>
    rw [ofSets_concat, get, set] at h
    by_cases hurl : url = call.1
    · rw [hurl, AList.lookup_insert] at h
      exact ⟨call.2, (Option.some.inj h).symm⟩
    · rw [AList.lookup_insert_ne hurl] at h
      exact ih h

/-- **The round trip.** A store that was filled by `set`, in whatever order its map
iterates, is read back as it is exactly when no URL holds a quote or a line feed. -/
theorem roundTrips_iff (calls : List (Str × ℤ)) {s : AuthorityStore}
    (horder : s.map.entries.Perm (ofSets calls).map.entries) :
    s.RoundTrips ↔ ∀ call ∈ calls, '"' ∉ call.1 ∧ '\n' ∉ call.1 := by
  have hmem : ∀ url, url ∈ s.map ↔ ∃ call ∈ calls, call.1 = url := by
    intro url
    rw [AList.mem_of_perm horder, mem_ofSets]
  constructor
  · intro h call hcall
    exact h.isPlain call.1 ((hmem call.1).mpr ⟨call, hcall, rfl⟩)
  · intro h
    apply roundTrips_of_isPlain
    · intro url hurl
      obtain ⟨call, hcall, rfl⟩ := (hmem url).mp hurl
      exact h call hcall
    · intro url score hget
      rw [get, AList.perm_lookup horder] at hget
      exact millionths_of_get_ofSets calls hget

theorem roundTrips_iff_two :
    (ofSets [("gurt://x".toList, 500000), ("gurt://y".toList, 700000)]).RoundTrips
      ↔ ∀ call ∈ [("gurt://x".toList, (500000 : ℤ)), ("gurt://y".toList, 700000)],
        '"' ∉ call.1 ∧ '\n' ∉ call.1 :=
  roundTrips_iff [("gurt://x".toList, 500000), ("gurt://y".toList, 700000)] (List.Perm.refl _)

/-- A URL with a quote: it is read back as `a`. -/
theorem not_roundTrips_quote :
    ¬ ∀ calls : List (Str × ℤ), (ofSets calls).RoundTrips := by
  intro hall
  have hplain := (hall [("a\"b".toList, 500000)]).isPlain "a\"b".toList
    ((mem_ofSets _ _).mpr ⟨_, List.mem_singleton_self _, rfl⟩)
  exact absurd hplain.1 (by decide)

end AuthorityStore

end Gurted.Link
