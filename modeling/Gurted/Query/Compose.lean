import Gurted.Std.Slice
import Gurted.Query.Parse

/-!
# Queries put together

What one token does does not depend on the tokens before it: a query is the
composition of its tokens, and two queries with a space between them parse to the
composition of what each parses to.
-/

namespace Gurted.Query

open Gurted

/-! ## The slice of `strip_quotes` -/

theorem stripQuotes_quoted (q : Char) (hq : q = '"' ∨ q = '\'') (v : Str) :
    stripQuotes (q :: (v ++ [q])) = v := by
  have hlen : 2 ≤ Str.byteLen (q :: (v ++ [q])) := by
    have hpos := q.utf8Size_pos
    rw [Str.byteLen_cons, Str.byteLen_append, Str.byteLen_cons]
    omega
  have hends : (q :: (v ++ [q])).getLast? = some q := by
    rw [← List.cons_append, List.getLast?_append]
    rfl
  have hquotes : (q = '"' ∧ q = '"') ∨ (q = '\'' ∧ q = '\'') := by
    rcases hq with rfl | rfl
    · exact .inl ⟨rfl, rfl⟩
    · exact .inr ⟨rfl, rfl⟩
  rw [stripQuotes, hends, List.head?_cons]
  simp only [Option.some.injEq]
  rw [if_pos ⟨hlen, hquotes⟩]
  exact List.dropLast_concat

/-- A string is in quotes or `strip_quotes` leaves it. -/
theorem stripQuotes_cases (s : Str) :
    stripQuotes s = s ∨ ∃ q v, (q = '"' ∨ q = '\'') ∧ s = q :: (v ++ [q]) := by
  by_cases h : 2 ≤ s.byteLen ∧ ((s.head? = some '"' ∧ s.getLast? = some '"') ∨
      (s.head? = some '\'' ∧ s.getLast? = some '\''))
  · obtain ⟨hlen, hends⟩ := h
    have hquoted : ∀ q : Char, q.utf8Size = 1 → s.head? = some q → s.getLast? = some q →
        ∃ v, s = q :: (v ++ [q]) := by
      intro q hsize hhead hlast
      obtain ⟨r, rfl⟩ := List.head?_eq_some_iff.mp hhead
      have hr : r ≠ [] := by
        intro hnil
        rw [hnil, Str.byteLen_cons, hsize] at hlen
        exact absurd hlen (by decide)
      rw [List.getLast?_cons_of_ne_nil hr] at hlast
      obtain ⟨v, rfl⟩ := List.getLast?_eq_some_iff.mp hlast
      exact ⟨v, rfl⟩
    rcases hends with ⟨hhead, hlast⟩ | ⟨hhead, hlast⟩
    · obtain ⟨v, hv⟩ := hquoted '"' rfl hhead hlast
      exact .inr ⟨'"', v, .inl rfl, hv⟩
    · obtain ⟨v, hv⟩ := hquoted '\'' rfl hhead hlast
      exact .inr ⟨'\'', v, .inr rfl, hv⟩
  · exact .inl (if_neg h)

/-- **The slice is safe**: where the quotes go, `&s[1..s.len() - 1]` cuts between
characters and is what is left. -/
theorem slice_stripQuotes {s : Str} (h : stripQuotes s ≠ s) :
    (Str.sliceTo (s.byteLen - 1) s).bind (Str.sliceFrom 1) = some (stripQuotes s) := by
  rcases stripQuotes_cases s with heq | ⟨q, v, hq, rfl⟩
  · exact absurd heq h
  · have hsize : q.utf8Size = 1 := by
      rcases hq with rfl | rfl
      · rfl
      · rfl
    have hlen : Str.byteLen (q :: (v ++ [q])) - 1 = Str.byteLen (q :: v) := by
      rw [← List.cons_append, Str.byteLen_append, Str.byteLen_cons q [], hsize]
      rfl
    have hto : Str.sliceTo (Str.byteLen (q :: v)) (q :: v ++ [q]) = some (q :: v) :=
      Str.sliceTo_append _ _
    have hone : (1 : Nat) = Str.byteLen [q] := by
      rw [Str.byteLen_cons, hsize]
      rfl
    have hfrom : Str.sliceFrom 1 (q :: v) = some v := by
      rw [hone]
      exact Str.sliceFrom_append [q] v
    rw [hlen, ← List.cons_append, hto, Option.bind_some, hfrom, List.cons_append,
      stripQuotes_quoted q hq]

theorem stripQuotes_subset (s : Str) : stripQuotes s ⊆ s := by
  rcases stripQuotes_cases s with heq | ⟨q, v, hq, rfl⟩
  · rw [heq]
    exact List.Subset.refl s
  · rw [stripQuotes_quoted q hq]
    intro c hc
    exact List.mem_cons_of_mem q (List.mem_append_left [q] hc)

/-! ## Composition -/

/-- A query followed by another one: its terms first, and the filters of the
second where it has them. -/
def ParsedQuery.append (p q : ParsedQuery) : ParsedQuery where
  terms := p.terms ++ q.terms
  filters :=
    { site := q.filters.site.or p.filters.site
      filetype := q.filters.filetype.or p.filters.filetype }

/-- The query without tokens. -/
def ParsedQuery.empty : ParsedQuery := ⟨[], ⟨none, none⟩⟩

theorem ParsedQuery.append_empty (p : ParsedQuery) : p.append .empty = p := by
  rw [ParsedQuery.append, ParsedQuery.empty]
  simp

theorem setFilter_or (old new : Option Str) (v : Str) :
    setFilter (new.or old) v = (setFilter new v).or old := by
  rw [setFilter, setFilter]
  split
  · rfl
  · rfl

theorem pushTerm_append (p q : ParsedQuery) (raw : Str) :
    (p.append q).pushTerm raw = p.append (q.pushTerm raw) := by
  rw [ParsedQuery.pushTerm, ParsedQuery.pushTerm]
  split
  · rfl
  · simp [ParsedQuery.append]

/-- A token works on what the last query left, whatever came before it. -/
theorem token_append (p q : ParsedQuery) (raw : Str) :
    (p.append q).token raw = p.append (q.token raw) := by
  rw [ParsedQuery.token, ParsedQuery.token]
  split
  · split
    · show _ = ParsedQuery.append p { q with filters := _ }
      simp only [ParsedQuery.append, setFilter_or]
    · split
      · show _ = ParsedQuery.append p { q with filters := _ }
        simp only [ParsedQuery.append, setFilter_or]
      · exact pushTerm_append p q raw
  · exact pushTerm_append p q raw

theorem foldl_token_append (raws : List Str) (p q : ParsedQuery) :
    raws.foldl ParsedQuery.token (p.append q) = p.append (raws.foldl ParsedQuery.token q) := by
  induction raws generalizing q with
  | nil => rfl
  | cons raw raws ih => rw [List.foldl_cons, token_append, ih, List.foldl_cons]

theorem parseQuery_append (a b : Str) :
    parseQuery (a ++ ' ' :: b) = (parseQuery a).append (parseQuery b) := by
  rw [parseQuery, Str.splitWhitespace_eq, Str.tokens_append_cons (by decide), List.foldl_append]
  show (Str.splitWhitespace b).foldl ParsedQuery.token (parseQuery a) = _
  rw [← (parseQuery a).append_empty, foldl_token_append, ParsedQuery.append_empty]
  rfl

/-! ## What a filter and a term can be -/

/-- A filter value: not empty, without upper case ASCII letters and white space. -/
def IsFilterValue (v : Str) : Prop :=
  v ≠ [] ∧ v.toAsciiLowercase = v ∧ ∀ c ∈ v, Str.isWhitespace c = false

/-- A token whose part before its first `:` is one of the two keys. -/
def IsFilterToken (t : Str) : Prop :=
  ∃ k v, Str.splitOnce ':' t = some (k, v)
    ∧ (Str.eqIgnoreAsciiCase k "site".toList = true
      ∨ Str.eqIgnoreAsciiCase k "filetype".toList = true)

/-- What every round of the loop keeps. -/
structure ParsedQuery.WellFormed (pq : ParsedQuery) : Prop where
  site : ∀ v, pq.filters.site = some v → IsFilterValue v
  filetype : ∀ v, pq.filters.filetype = some v → IsFilterValue v
  terms : ∀ t ∈ pq.terms, ¬ IsFilterToken t

theorem isFilterValue_setFilter {old : Option Str} {v w : Str}
    (hv : ∀ c ∈ v, Str.isWhitespace c = false) (hold : ∀ u, old = some u → IsFilterValue u)
    (h : setFilter old v = some w) : IsFilterValue w := by
  rw [setFilter] at h
  split at h
  · exact hold w h
  · next hne =>
    cases h
    refine ⟨by simpa using hne, Str.toAsciiLowercase_idem _, ?_⟩
    intro c hc
    obtain ⟨x, hx, rfl⟩ := List.mem_map.mp hc
    rw [Str.isWhitespace_toLower]
    exact hv x (stripQuotes_subset v hx)

theorem wellFormed_pushTerm {pq : ParsedQuery} (h : pq.WellFormed) {raw : Str}
    (hraw : ¬ IsFilterToken raw) : (pq.pushTerm raw).WellFormed := by
  rw [ParsedQuery.pushTerm]
  split
  · exact h
  · refine ⟨h.site, h.filetype, ?_⟩
    intro t ht
    rcases List.mem_append.mp ht with ht | ht
    · exact h.terms t ht
    · rw [List.mem_singleton.mp ht]
      exact hraw

theorem eqIgnoreAsciiCase_site (k : Str) :
    Str.eqIgnoreAsciiCase k "site".toList = true ↔ k.toAsciiLowercase = "site".toList := by
  rw [Str.eqIgnoreAsciiCase, beq_iff_eq]
  rfl

theorem eqIgnoreAsciiCase_filetype (k : Str) :
    Str.eqIgnoreAsciiCase k "filetype".toList = true
      ↔ k.toAsciiLowercase = "filetype".toList := by
  rw [Str.eqIgnoreAsciiCase, beq_iff_eq]
  rfl

theorem wellFormed_token {pq : ParsedQuery} (h : pq.WellFormed) {raw : Str}
    (hraw : ∀ c ∈ raw, Str.isWhitespace c = false) : (pq.token raw).WellFormed := by
  rw [ParsedQuery.token]
  split
  · next k v hsplit =>
    obtain ⟨heq, hk⟩ := Str.splitOnce_eq_some hsplit
    have hv : ∀ c ∈ v, Str.isWhitespace c = false := by
      intro c hc
      exact hraw c (by rw [heq]; simp [hc])
    split
    · exact ⟨fun w hw => isFilterValue_setFilter hv h.site hw, h.filetype, h.terms⟩
    · next hsite =>
      split
      · exact ⟨h.site, fun w hw => isFilterValue_setFilter hv h.filetype hw, h.terms⟩
      · next hfiletype =>
        apply wellFormed_pushTerm h
        intro hfilter
        obtain ⟨k', v', hsplit', hkey⟩ := hfilter
        rw [hsplit] at hsplit'
        cases hsplit'
        rcases hkey with hkey | hkey
        · exact hsite ((eqIgnoreAsciiCase_site k).mp hkey)
        · exact hfiletype ((eqIgnoreAsciiCase_filetype k).mp hkey)
  · next hsplit =>
    apply wellFormed_pushTerm h
    intro hfilter
    obtain ⟨k', v', hsplit', hkey⟩ := hfilter
    rw [hsplit] at hsplit'
    cases hsplit'

theorem wellFormed_parseQuery (input : Str) : (parseQuery input).WellFormed := by
  have hfold : ∀ (raws : List Str) (pq : ParsedQuery), pq.WellFormed →
      (∀ raw ∈ raws, ∀ c ∈ raw, Str.isWhitespace c = false) →
      (raws.foldl ParsedQuery.token pq).WellFormed := by
    intro raws
    induction raws with
    | nil => exact fun pq h _ => h
    | cons raw raws ih =>
      intro pq h hws
      exact ih _ (wellFormed_token h (hws raw (by simp))) fun r hr => hws r (by simp [hr])
  have hstart : ParsedQuery.empty.WellFormed := by
    constructor
    · intro v hv
      cases hv
    · intro v hv
      cases hv
    · intro t ht
      cases ht
  apply hfold _ _ hstart
  intro raw hraw c hc
  rw [Str.splitWhitespace_eq] at hraw
  exact ((Str.mem_tokens_iff input).mp ⟨raw, hraw, hc⟩).2

/-- `parse_query` composes, and on every input its filters and terms are what the
two kinds of token can give. -/
theorem parseQuery_compositional :
    (∀ a b : Str,
        (parseQuery (a ++ " ".toList ++ b)).terms = (parseQuery a).terms ++ (parseQuery b).terms
        ∧ (parseQuery (a ++ " ".toList ++ b)).filters.site
          = (parseQuery b).filters.site.or (parseQuery a).filters.site
        ∧ (parseQuery (a ++ " ".toList ++ b)).filters.filetype
          = (parseQuery b).filters.filetype.or (parseQuery a).filters.filetype)
      ∧ ∀ input : Str,
        (∀ v, (parseQuery input).filters.site = some v → IsFilterValue v)
        ∧ (∀ v, (parseQuery input).filters.filetype = some v → IsFilterValue v)
        ∧ ∀ t ∈ (parseQuery input).terms, ¬ IsFilterToken t := by
  constructor
  · intro a b
    have happend : parseQuery (a ++ " ".toList ++ b) = (parseQuery a).append (parseQuery b) := by
      rw [List.append_assoc]
      exact parseQuery_append a b
    rw [happend]
    exact ⟨rfl, rfl, rfl⟩
  · intro input
    have hwf := wellFormed_parseQuery input
    exact ⟨hwf.site, hwf.filetype, hwf.terms⟩

end Gurted.Query
