import Gurted.Link.ExtractLinks

/-!
# Well-formed anchors

A page of anchors `<a href=..>` with text between them. `extractLinks_anchors`: the links
of the page are the values with the scheme, in order.
-/

namespace Gurted.Link

open Gurted Gurted.Lib

/-- "href" does not occur in the text, in any case. -/
def NoHref (text : Str) : Prop := ¬ "href".toList <:+: text.toAsciiLowercase

instance : DecidablePred NoHref := fun text =>
  inferInstanceAs (Decidable (¬ "href".toList <:+: text.toAsciiLowercase))

def anchorStart : Str := "<a href=".toList

/-- An anchor and the text behind it. -/
structure Anchor where
  value : Str
  /-- `none` is a value without quotes. -/
  quote : Option Char
  after : Str
  value_ne_nil : value ≠ []
  no_backslash : '\\' ∉ value
  quoted : ∀ q ∈ quote, isQuote q = true ∧ q ∉ value
  bare : quote = none → (∀ c ∈ value, isBare c = true) ∧ ∀ c ∈ value.head?, isQuote c = false
  after_noHref : NoHref after

namespace Anchor

/-- The value as it is written. -/
def written (a : Anchor) : Str :=
  match a.quote with
  | some q => q :: (a.value ++ [q])
  | none => a.value

def text (a : Anchor) : Str := anchorStart ++ (a.written ++ '>' :: a.after)

end Anchor

theorem nextValue_of_noHref {t : Str} (h : NoHref t) : nextValue t = none := by
  have hnone : findSub "href".toList t.toAsciiLowercase = none := by
    rw [← Option.not_isSome_iff_eq_none, findSub_isSome_iff]
    exact h
  rw [nextValue, hnone]
  rfl

/-- The next value is the one of the next anchor. -/
theorem nextValue_anchor {t : Str} {c : Char} (ht : NoHref t) (hspace : isSpace c = false)
    (hback : c ≠ '\\') (rest : Str) :
    nextValue (t ++ (anchorStart ++ c :: rest)) = some (c :: rest) := by
  have hbefore : ¬ "href".toList <:+: Str.toAsciiLowercase (t ++ "<a ".toList) := by
    rw [Str.toAsciiLowercase_append]
    exact not_infix_append_cons (by decide) ht (by decide)
  have hfind : findSub "href".toList
      (Str.toAsciiLowercase (t ++ "<a ".toList ++ ("href=".toList ++ c :: rest)))
        = some (t ++ "<a ".toList).length := by
    rw [Str.toAsciiLowercase_append, ← Str.toAsciiLowercase_length (t ++ "<a ".toList)]
    exact findSub_append_of_prefix (by decide) hbefore
      (by rw [Str.toAsciiLowercase_append]; exact List.prefix_append "href".toList _)
  have hsame : t ++ (anchorStart ++ c :: rest)
      = t ++ "<a ".toList ++ ("href=".toList ++ c :: rest) := by
    rw [List.append_assoc]
    rfl
  have heq : findSub ['='] (Str.toAsciiLowercase ("href=".toList ++ c :: rest)) = some 4 := rfl
  have hdrop : (t ++ "<a ".toList ++ ("href=".toList ++ c :: rest)).drop
      ((t ++ "<a ".toList).length + 4 + 1) = c :: rest := by
    rw [Nat.add_assoc, ← List.drop_drop, List.drop_left]
    rfl
  have hskip : skipToValue (c :: rest) = c :: rest := by
    rw [skipToValue, List.dropWhile_cons, hspace, if_neg Bool.false_ne_true, List.dropWhile_cons,
      if_neg (by simpa using hback)]
  rw [hsame, nextValue, hfind, Option.bind_eq_bind, Option.bind_some, List.drop_left, heq,
    Option.bind_some, hdrop, hskip]
  rfl

theorem linkOf_of_no_backslash {v : Str} (h : '\\' ∉ v) :
    (linkOf v).toList = if v.startsWith gurtScheme then [v] else [] := by
  have hself : v.rdropWhile (· == '\\') = v := by
    refine List.rdropWhile_eq_self_iff.mpr fun hne hlast => h ?_
    rw [← beq_iff_eq.mp hlast]
    exact List.getLast_mem hne
  rw [linkOf, hself]
  split <;> rfl

/-- The turn of an anchor goes on at its `>`. -/
theorem extractFrom_anchor (pre : Str) {t : Str} (ht : NoHref t) (a : Anchor) (rest : Str) :
    ∃ head, extractFrom (pre ++ (t ++ (a.text ++ rest))) pre.byteLen
      = (extractFrom (pre ++ head ++ ('>' :: a.after ++ rest)) (Str.byteLen (pre ++ head))).map
          ((linkOf a.value).toList ++ ·) := by
  have htext : a.text ++ rest = anchorStart ++ (a.written ++ ('>' :: a.after ++ rest)) := by
    rw [Anchor.text, List.append_assoc, List.append_assoc]
  rw [htext]
  cases hquote : a.quote with
  | some q =>
    obtain ⟨hq, hv⟩ := a.quoted q hquote
    have hwritten : a.written ++ ('>' :: a.after ++ rest)
        = q :: (a.value ++ q :: ('>' :: a.after ++ rest)) := by
      simp only [Anchor.written, hquote, List.cons_append, List.append_assoc, List.nil_append]
    have hplain : isSpace q = false ∧ q ≠ '\\' := by
      simp only [isQuote, Bool.or_eq_true, beq_iff_eq] at hq
      rcases hq with rfl | rfl <;> decide
    have hvalue := nextValue_anchor ht hplain.1 hplain.2 (a.value ++ q :: ('>' :: a.after ++ rest))
    rw [hwritten]
    obtain ⟨head, -, -, hturn⟩ := extractFrom_quoted pre hvalue hq hv
    exact ⟨head, hturn⟩
  | none =>
    obtain ⟨hbare, hhead⟩ := a.bare hquote
    obtain ⟨c, v, hv⟩ := List.exists_cons_of_ne_nil a.value_ne_nil
    have hc : isBare c = true := hbare c (hv ▸ List.mem_cons_self)
    have hspace : isSpace c = false := by
      simp only [isBare, Bool.not_eq_true', Bool.or_eq_false_iff] at hc
      exact hc.1
    have hback : c ≠ '\\' := fun h => a.no_backslash (hv ▸ h ▸ List.mem_cons_self)
    have hwritten : a.written ++ ('>' :: a.after ++ rest)
        = c :: (v ++ ('>' :: a.after ++ rest)) := by
      simp only [Anchor.written, hquote, hv, List.cons_append]
    have hvalue := nextValue_anchor ht hspace hback (v ++ ('>' :: a.after ++ rest))
    rw [hwritten]
    obtain ⟨head, -, -, hturn⟩ :=
      extractFrom_bare pre hvalue (hhead c (by rw [hv]; exact rfl))
    -- the value ends at the `>`
    have hstop : isBare '>' = false := rfl
    have htake : (c :: (v ++ ('>' :: a.after ++ rest))).takeWhile isBare = a.value := by
      rw [← List.cons_append, ← hv, List.takeWhile_append_of_pos hbare, List.cons_append,
        List.takeWhile_cons, hstop]
      exact List.append_nil _
    have hdrop : (c :: (v ++ ('>' :: a.after ++ rest))).dropWhile isBare
        = '>' :: a.after ++ rest := by
      rw [← List.cons_append, ← hv, List.dropWhile_append_of_pos hbare, List.cons_append,
        List.dropWhile_cons, hstop]
      rfl
    rw [htake, hdrop] at hturn
    exact ⟨head, hturn⟩

theorem extractFrom_anchors (pre : Str) {t : Str} (ht : NoHref t) (anchors : List Anchor) :
    extractFrom (pre ++ (t ++ anchors.flatMap Anchor.text)) pre.byteLen
      = some ((anchors.map Anchor.value).filter (Str.startsWith · gurtScheme)) := by
  induction anchors generalizing pre t with
  | nil =>
    rw [List.flatMap_nil, List.append_nil]
    exact extractFrom_of_none (nextValue_of_noHref ht)
  | cons a anchors ih =>
    obtain ⟨head, hturn⟩ := extractFrom_anchor pre ht a (anchors.flatMap Anchor.text)
    have hafter : NoHref ('>' :: a.after) := by
      have hnil : ¬ "href".toList <:+: [] := by decide
      exact not_infix_append_cons (by decide) hnil a.after_noHref
    rw [List.flatMap_cons, hturn, ih (pre ++ head) hafter, Option.map_some,
      linkOf_of_no_backslash a.no_backslash, List.map_cons, List.filter_cons]
    split <;> rfl

/-- **The links of a page** are the values of its anchors that have the scheme, in order. -/
theorem extractLinks_anchors {t : Str} (ht : NoHref t) (anchors : List Anchor) :
    extractLinks (t ++ anchors.flatMap Anchor.text)
      = some ((anchors.map Anchor.value).filter (Str.startsWith · gurtScheme)) :=
  extractFrom_anchors [] ht anchors

/-- A value in quotes that has the tag's letters itself. -/
def quotedAnchor : Anchor where
  value := "gurt://a.b/?href=é".toList
  quote := some '\''
  after := "</a>".toList
  value_ne_nil := by decide
  no_backslash := by decide
  quoted q hq := by
    cases hq
    decide
  bare := nofun
  after_noHref := by decide

/-- A value without quotes, of another scheme. -/
def bareAnchor : Anchor where
  value := "http://c.d".toList
  quote := none
  after := []
  value_ne_nil := by decide
  no_backslash := by decide
  quoted := nofun
  bare _ := by
    refine ⟨List.all_eq_true.mp (by decide), fun c hc => ?_⟩
    cases hc
    decide
  after_noHref := by decide

theorem extractLinks_anchors_page :
    extractLinks ("é".toList ++ [bareAnchor, quotedAnchor].flatMap Anchor.text)
      = some ["gurt://a.b/?href=é".toList] :=
  (extractLinks_anchors (by decide) [bareAnchor, quotedAnchor]).trans (by decide)

end Gurted.Link
