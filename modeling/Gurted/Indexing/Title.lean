import Gurted.Index.Analysis
import Gurted.Indexing.Fetch
import Gurted.Std.Scan

/-!
# The title of a page (`extract_title` in `gurtd/src/indexing/fetch.rs`)

`FirstTitle` says what the first title element of a page holds. `pageTitle_exact`: the
document of a page has its text as title, with single spaces, and the same terms as it.
-/

namespace Gurted.Indexing

open Gurted Gurted.Lib Gurted.Index

/-! ## Title elements -/

def titleTag : Str := "<title".toList

def titleEnd : Str := "</title>".toList

/-- The text in the first title element of a page, if the element is complete. The letters
of the tags may be in any case, and a tag that only begins with `<title`, such as
`<titlebar>`, opens one as well. -/
inductive FirstTitle : Str → Option Str → Prop where
  | absent {html : Str} : ¬ titleTag <:+: html.toAsciiLowercase → FirstTitle html none
  | unopened {before tag : Str} :
      ¬ titleTag <:+: before.toAsciiLowercase → titleTag <+: tag.toAsciiLowercase → '>' ∉ tag →
      FirstTitle (before ++ tag) none
  | unclosed {before tag rest : Str} :
      ¬ titleTag <:+: before.toAsciiLowercase → titleTag <+: tag.toAsciiLowercase → '>' ∉ tag →
      ¬ titleEnd <:+: rest.toAsciiLowercase → FirstTitle (before ++ (tag ++ '>' :: rest)) none
  | element {before tag text rest : Str} :
      ¬ titleTag <:+: before.toAsciiLowercase → titleTag <+: tag.toAsciiLowercase → '>' ∉ tag →
      ¬ titleEnd <:+: text.toAsciiLowercase → titleEnd <+: rest.toAsciiLowercase →
      FirstTitle (before ++ (tag ++ '>' :: (text ++ rest))) (some text)

theorem mem_toAsciiLowercase_gt {s : Str} : '>' ∈ s.toAsciiLowercase ↔ '>' ∈ s := by
  constructor
  · intro h
    obtain ⟨c, hc, hlow⟩ := List.mem_map.mp h
    have hgt : c = '>' := by
      by_cases hupper : 65 ≤ c.toNat ∧ c.toNat ≤ 90
      · have hval := congrArg Char.toNat hlow
        rw [Str.toNat_toLower, if_pos hupper] at hval
        have : '>'.toNat = 62 := rfl
        omega
      · rwa [Str.toLower_of_not_upper hupper] at hlow
    exact hgt ▸ hc
  · exact fun h => List.mem_map.mpr ⟨'>', h, rfl⟩

/-- What a string starts with stands before a character it does not have. -/
theorem prefix_of_notMem {α : Type*} {x : α} {pat l r : List α} (hx : x ∉ pat)
    (h : pat <+: l ++ x :: r) : pat <+: l := by
  induction l generalizing pat with
  | nil =>
    cases pat with
    | nil => exact List.nil_prefix
    | cons y pat =>
      rw [List.nil_append, List.cons_prefix_cons] at h
      exact absurd (h.1 ▸ List.mem_cons_self) hx
  | cons a l ih =>
    cases pat with
    | nil => exact List.nil_prefix
    | cons y pat =>
      rw [List.cons_append, List.cons_prefix_cons] at h
      exact List.cons_prefix_cons.mpr ⟨h.1, ih (List.not_mem_of_not_mem_cons hx) h.2⟩

/-- A tag up to its end, or without one. -/
theorem exists_tag {s : Str} (h : titleTag <+: s.toAsciiLowercase) :
    ('>' ∉ s) ∨ ∃ tag rest, s = tag ++ '>' :: rest ∧ titleTag <+: tag.toAsciiLowercase ∧
      '>' ∉ tag := by
  by_cases hgt : '>' ∈ s
  · obtain ⟨tag, rest, rfl, hfirst⟩ := List.eq_append_cons_of_mem hgt
    rw [Str.toAsciiLowercase_append] at h
    exact .inr ⟨tag, rest, rfl, prefix_of_notMem (by decide) h, hfirst⟩
  · exact .inl hgt

/-- **Every page has a first title element or none.** -/
theorem firstTitle (html : Str) : ∃ element, FirstTitle html element := by
  by_cases hopen : titleTag <:+: html.toAsciiLowercase
  · obtain ⟨before', after, hcut, hfirst⟩ := exists_first_of_infix (by decide) hopen
    obtain ⟨before, tail, rfl, rfl, htail⟩ :
        ∃ before tail : Str, html = before ++ tail ∧ before.toAsciiLowercase = before' ∧
          tail.toAsciiLowercase = titleTag ++ after := List.map_eq_append_iff.mp hcut
    have hbefore : ¬ titleTag <:+: before.toAsciiLowercase :=
      fun h => hfirst (h.trans (List.prefix_append _ _).isInfix)
    rcases exists_tag ⟨after, htail.symm⟩ with hgt | ⟨tag, rest, rfl, htag, hgt⟩
    · exact ⟨none, .unopened hbefore ⟨after, htail.symm⟩ hgt⟩
    · by_cases hclose : titleEnd <:+: Str.toAsciiLowercase rest
      · obtain ⟨text', after, hcut, hfirst⟩ := exists_first_of_infix (by decide) hclose
        obtain ⟨text, rest, rfl, rfl, hrest⟩ :
            ∃ text tail : Str, rest = text ++ tail ∧ text.toAsciiLowercase = text' ∧
              tail.toAsciiLowercase = titleEnd ++ after := List.map_eq_append_iff.mp hcut
        exact ⟨some text, .element hbefore htag hgt
          (fun h => hfirst (h.trans (List.prefix_append _ _).isInfix)) ⟨after, hrest.symm⟩⟩
      · exact ⟨none, .unclosed hbefore htag hgt hclose⟩
  · exact ⟨none, .absent hopen⟩

/-! ## The title -/

/-- The words of a text with single spaces between them, if it has any. -/
def titleText (text : Str) : Option Str :=
  let collapsed := Str.join [' '] text.splitWhitespace
  if collapsed.isEmpty then none else some collapsed

theorem areTokens_splitWhitespace (text : Str) :
    ∀ t ∈ text.splitWhitespace, t ≠ [] ∧ ∀ c ∈ t, Str.isWhitespace c = false := by
  intro t ht
  rw [Str.splitWhitespace_eq] at ht
  have hne : t.isEmpty = false := by simpa using (List.mem_filter.mp ht).2
  refine ⟨by simpa using hne, fun c hc => ?_⟩
  exact ((Str.mem_tokens_iff text).mp ⟨t, ht, hc⟩).2

theorem join_ne_nil {t : Str} (ht : t ≠ []) (ts : List Str) : Str.join [' '] (t :: ts) ≠ [] := by
  cases ts with
  | nil => rwa [Str.join, List.intercalate_singleton]
  | cons u ts =>
    rw [Str.join, List.intercalate_cons_cons, List.append_assoc]
    exact List.append_ne_nil_of_left_ne_nil ht _

section Join
variable {ts : List Str} (h : ∀ t ∈ ts, t ≠ [] ∧ ∀ c ∈ t, Str.isWhitespace c = false)
include h

theorem head_join : ∀ c ∈ (Str.join [' '] ts).head?, Str.isWhitespace c = false := by
  intro c hc
  cases ts with
  | nil => cases hc
  | cons t ts =>
    obtain ⟨hne, hws⟩ := h t List.mem_cons_self
    refine hws c (List.mem_of_head? ?_)
    cases ts with
    | nil => rwa [Str.join, List.intercalate_singleton] at hc
    | cons u ts =>
      rwa [Str.join, List.intercalate_cons_cons, List.append_assoc,
        List.head?_append_of_ne_nil _ hne] at hc

theorem getLast_join : ∀ c ∈ (Str.join [' '] ts).getLast?, Str.isWhitespace c = false := by
  induction ts with
  | nil => exact fun c hc => by cases hc
  | cons t ts ih =>
    intro c hc
    cases ts with
    | nil =>
      rw [Str.join, List.intercalate_singleton] at hc
      exact (h t List.mem_cons_self).2 c (List.mem_of_getLast? hc)
    | cons u ts =>
      have hne := join_ne_nil (h u (by simp)).1 ts
      rw [Str.join, List.intercalate_cons_cons, List.append_assoc, ← Str.join,
        List.getLast?_append_of_ne_nil _ (by simp), List.getLast?_append_of_ne_nil _ hne] at hc
      exact ih (fun t ht => h t (List.mem_cons_of_mem _ ht)) c hc

/-- Words joined by spaces have no space at an end. -/
theorem trim_join : Str.trim (Str.join [' '] ts) = Str.join [' '] ts :=
  Str.trim_of_ends (head_join h) (getLast_join h)

end Join

/-- The start of the first tag. -/
theorem find_titleTag {before tail : Str} (hbefore : ¬ titleTag <:+: before.toAsciiLowercase)
    (htail : titleTag <+: tail.toAsciiLowercase) :
    (before ++ tail).toAsciiLowercase.find "<title".toList = some before.byteLen :=
  Str.find_lower_append (by decide) (by decide) hbefore htail

theorem sliceFrom_toAsciiLowercase (before tail : Str) :
    (before ++ tail).toAsciiLowercase.sliceFrom before.byteLen = some tail.toAsciiLowercase := by
  rw [Str.toAsciiLowercase_append, ← Str.byteLen_toAsciiLowercase before, Str.sliceFrom_append]

/-- The end of the tag. -/
theorem find_tagEnd {tag : Str} (hgt : '>' ∉ tag) (rest : Str) :
    (tag ++ '>' :: rest).toAsciiLowercase.find ">".toList = some tag.byteLen := by
  refine Str.find_lower_append (by decide) (by decide) ?_ ⟨rest.toAsciiLowercase, rfl⟩
  intro hin
  exact hgt (mem_toAsciiLowercase_gt.mp (hin.subset (by decide)))

theorem byteLen_tag (before tag : Str) :
    Str.byteLen (before ++ (tag ++ ['>'])) = before.byteLen + tag.byteLen + 1 := by
  rw [Str.byteLen_append, Str.byteLen_append, Nat.add_assoc]
  rfl

theorem sliceFrom_tagEnd (before tag rest : Str) :
    (before ++ (tag ++ '>' :: rest)).toAsciiLowercase.sliceFrom (before.byteLen + tag.byteLen + 1)
      = some rest.toAsciiLowercase := by
  have hcut : before ++ (tag ++ '>' :: rest) = (before ++ (tag ++ ['>'])) ++ rest := by simp
  rw [hcut, ← byteLen_tag, sliceFrom_toAsciiLowercase]

/-- **What `extract_title` finds.** -/
theorem extractTitle_of_firstTitle {html : Str} {element : Option Str}
    (h : FirstTitle html element) : extractTitle html = some (element.bind titleText) := by
  cases h with
  | absent hnone =>
    have hfind : html.toAsciiLowercase.find "<title".toList = none :=
      Str.find_eq_none_iff.mpr hnone
    simp only [extractTitle, hfind]
    rfl
  | @unopened before tag hbefore htag hgt =>
    have hend : tag.toAsciiLowercase.find ">".toList = none := by
      refine Str.find_eq_none_iff.mpr fun hin => ?_
      exact hgt (mem_toAsciiLowercase_gt.mp (hin.subset (by decide)))
    simp only [extractTitle, find_titleTag hbefore htag, sliceFrom_toAsciiLowercase,
      Option.bind_eq_bind, Option.bind_some, hend]
    rfl
  | @unclosed before tag rest hbefore htag hgt hclose =>
    have hopen : titleTag <+: (tag ++ '>' :: rest).toAsciiLowercase :=
      htag.trans (Str.toAsciiLowercase_append .. ▸ List.prefix_append _ _)
    have hnone : rest.toAsciiLowercase.find "</title>".toList = none :=
      Str.find_eq_none_iff.mpr hclose
    simp only [extractTitle, find_titleTag hbefore hopen, sliceFrom_toAsciiLowercase,
      Option.bind_eq_bind, Option.bind_some, find_tagEnd hgt, sliceFrom_tagEnd, hnone]
    rfl
  | @element before tag text rest hbefore htag hgt htext hrest =>
    have hopen : titleTag <+: (tag ++ '>' :: (text ++ rest)).toAsciiLowercase :=
      htag.trans (Str.toAsciiLowercase_append .. ▸ List.prefix_append _ _)
    have hclose : (text ++ rest).toAsciiLowercase.find "</title>".toList = some text.byteLen :=
      Str.find_lower_append (by decide) (by decide) htext hrest
    have hget : Str.get (before.byteLen + tag.byteLen + 1)
        (before.byteLen + tag.byteLen + 1 + text.byteLen)
        (before ++ (tag ++ '>' :: (text ++ rest))) = some text := by
      have hcut : before ++ (tag ++ '>' :: (text ++ rest))
          = (before ++ (tag ++ ['>'])) ++ (text ++ rest) := by simp
      rw [hcut, ← byteLen_tag, ← Str.byteLen_append, Str.get_append]
    simp only [extractTitle, find_titleTag hbefore hopen, sliceFrom_toAsciiLowercase,
      Option.bind_eq_bind, Option.bind_some, find_tagEnd hgt, sliceFrom_tagEnd, hclose, hget,
      trim_join (areTokens_splitWhitespace text)]
    rfl

/-! ## The terms of a page -/

section Terms
variable (U : CharTables)

/-- Spaces are no part of a term. -/
theorem enStops_join (text : Str) :
    enStops U (Str.join [' '] text.splitWhitespace) = enStops U text := by
  have hspace : ∀ c, Str.isWhitespace c = true → notAlphanumeric U c = true := by
    intro c hc
    rw [notAlphanumeric, U.not_alphanumeric_ws c hc]
    rfl
  have htokens : simpleTokenizer U (Str.join [' '] text.splitWhitespace)
      = simpleTokenizer U text := by
    rw [simpleTokenizer, simpleTokenizer, ← Str.flatMap_tokens hspace,
      ← Str.flatMap_tokens hspace text, ← Str.splitWhitespace_eq, ← Str.splitWhitespace_eq,
      Str.splitWhitespace_join (areTokens_splitWhitespace text)]
  rw [enStops, enStops, htokens]

/-- **The title of a page** is the text of its first title element, with single spaces, or
the domain; and the terms of the title are those of that text. -/
theorem pageTitle_exact {E : Type*} (env : PageEnv E) (url domain : Str) (resp : ClientResponse) :
    (∃ element, FirstTitle (bodyText resp.body) element) ∧
      ∀ element, FirstTitle (bodyText resp.body) element →
        (pageDocument env url domain resp).title = (element.bind titleText).getD domain ∧
        ∀ text, element = some text → (∃ c ∈ text, Str.isWhitespace c = false) →
          enStops U (pageDocument env url domain resp).title = enStops U text := by
  refine ⟨firstTitle (bodyText resp.body), fun element helement => ?_⟩
  have htitle : (pageDocument env url domain resp).title
      = (element.bind titleText).getD domain := by
    show titleOf (bodyText resp.body) domain = _
    simp only [titleOf, extractTitle_of_firstTitle helement, Option.get_some]
  refine ⟨htitle, fun text htext hword => ?_⟩
  have hne : (Str.join [' '] text.splitWhitespace).isEmpty = false := by
    obtain ⟨c, hc, hws⟩ := hword
    obtain ⟨t, ht, -⟩ := (Str.mem_tokens_iff text).mpr ⟨hc, hws⟩
    rw [← Str.splitWhitespace_eq] at ht
    cases hwords : text.splitWhitespace with
    | nil =>
      rw [hwords] at ht
      cases ht
    | cons u us =>
      have hu := (areTokens_splitWhitespace text u (by rw [hwords]; exact List.mem_cons_self)).1
      simpa using join_ne_nil hu us
  rw [htitle, htext, Option.bind_some, titleText]
  simp only [hne, Bool.false_eq_true, if_false, Option.getD_some]
  exact enStops_join U text

end Terms

/-- A title in other letters, over two lines. -/
def spacedPage : Str := "<p><TITLE lang=en>\n Rust\n <b>Go </Title>".toList

theorem firstTitle_spacedPage : FirstTitle spacedPage (some "\n Rust\n <b>Go ".toList) := by
  have hcut : spacedPage = "<p>".toList ++ ("<TITLE lang=en".toList
      ++ '>' :: ("\n Rust\n <b>Go ".toList ++ "</Title>".toList)) := by decide
  rw [hcut]
  exact .element (by decide) (by decide) (by decide) (by decide) (by decide)

/-- Nothing of it counts for a title. -/
def unusedEnv : PageEnv Unit where
  fetch _ := .error ()
  urlHost _ := .error ()
  now _ := 0
  add _ := .ok ()

theorem pageTitle_exact_spaced :
    (pageDocument unusedEnv "gurt://a.b/".toList "a.b".toList ⟨200, [], utf8 spacedPage⟩).title
      = "Rust <b>Go".toList := by
  have hbody : bodyText (utf8 spacedPage) = spacedPage := by
    rw [bodyText, fromUtf8_utf8]
    rfl
  have hexact := (pageTitle_exact .latin1 unusedEnv "gurt://a.b/".toList "a.b".toList
    ⟨200, [], utf8 spacedPage⟩).2 _ (hbody ▸ firstTitle_spacedPage)
  rw [hexact.1]
  decide

end Gurted.Indexing
