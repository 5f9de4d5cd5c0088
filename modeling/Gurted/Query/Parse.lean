import Gurted.Std.Str

/-!
# Query parsing (`gurt-query/src/lib.rs`)
-/

namespace Gurted.Query

open Gurted

structure QueryFilters where
  site : Option Str
  filetype : Option Str
  deriving DecidableEq, Repr

structure ParsedQuery where
  terms : List Str
  filters : QueryFilters
  deriving DecidableEq, Repr

/-- `strip_quotes`. The first and the last byte are the same quote character of
two, so the slice between them is that of the characters. -/
def stripQuotes (s : Str) : Str :=
  if 2 ≤ s.byteLen ∧ ((s.head? = some '"' ∧ s.getLast? = some '"') ∨
      (s.head? = some '\'' ∧ s.getLast? = some '\'')) then s.tail.dropLast
  else s

/-- A filter keeps its last value that is not empty. -/
def setFilter (old : Option Str) (v : Str) : Option Str :=
  let v := (stripQuotes v).toAsciiLowercase
  if v.isEmpty then old else some v

/-- A token as a term. -/
def ParsedQuery.pushTerm (pq : ParsedQuery) (raw : Str) : ParsedQuery :=
  if raw.isEmpty then pq else { pq with terms := pq.terms ++ [raw] }

/-- One turn of the loop of `parse_query`. -/
def ParsedQuery.token (pq : ParsedQuery) (raw : Str) : ParsedQuery :=
  match Str.splitOnce ':' raw with
  | some (k, v) =>
      if k.toAsciiLowercase = "site".toList then
        { pq with filters := { pq.filters with site := setFilter pq.filters.site v } }
      else if k.toAsciiLowercase = "filetype".toList then
        { pq with filters := { pq.filters with filetype := setFilter pq.filters.filetype v } }
      else pq.pushTerm raw
  | none => pq.pushTerm raw

/-- `parse_query`. -/
def parseQuery (input : Str) : ParsedQuery :=
  (Str.splitWhitespace input).foldl ParsedQuery.token ⟨[], ⟨none, none⟩⟩

example : parseQuery "rust Site:\"A.com\" x:y".toList
    = ⟨["rust".toList, "x:y".toList], ⟨some "a.com".toList, none⟩⟩ := by decide

/-! ## Terms -/

theorem terms_pushTerm {pq : ParsedQuery} {raw t : Str} (h : t ∈ (pq.pushTerm raw).terms) :
    t ∈ pq.terms ∨ t = raw := by
  rw [ParsedQuery.pushTerm] at h
  split at h
  · exact .inl h
  · simpa using h

theorem terms_token {pq : ParsedQuery} {raw t : Str} (h : t ∈ (pq.token raw).terms) :
    t ∈ pq.terms ∨ t = raw := by
  rw [ParsedQuery.token] at h
  split at h
  · split at h
    · exact .inl h
    · split at h
      · exact .inl h
      · exact terms_pushTerm h
  · exact terms_pushTerm h

/-- The terms are tokens of the input. -/
theorem terms_subset (input : Str) :
    (parseQuery input).terms ⊆ Str.splitWhitespace input := by
  have hfold : ∀ (raws : List Str) (pq : ParsedQuery) (t : Str),
      t ∈ (raws.foldl ParsedQuery.token pq).terms → t ∈ pq.terms ∨ t ∈ raws := by
    intro raws
    induction raws with
    | nil => exact fun pq t h => .inl h
    | cons raw raws ih =>
      intro pq t h
      rcases ih _ t h with h | h
      · rcases terms_token h with h | rfl
        · exact .inl h
        · exact .inr (by simp)
      · exact .inr (List.mem_cons_of_mem _ h)
  intro t ht
  exact (hfold _ _ t ht).resolve_left (by simp)

/-- What a list of search terms is: no term is empty or holds white space. -/
def AreTokens (ts : List Str) : Prop :=
  ∀ t ∈ ts, t ≠ [] ∧ ∀ c ∈ t, Str.isWhitespace c = false

theorem areTokens_terms (input : Str) : AreTokens (parseQuery input).terms := by
  intro t ht
  have hmem := terms_subset input ht
  rw [Str.splitWhitespace_eq] at hmem
  have hne : t.isEmpty = false := by simpa using (List.mem_filter.mp hmem).2
  refine ⟨by simpa using hne, fun c hc => ?_⟩
  exact ((Str.mem_tokens_iff input).mp ⟨t, hmem, hc⟩).2

/-- Terms that differ in ASCII case only. -/
def SameTerms (ts us : List Str) : Prop :=
  ts.map Str.toAsciiLowercase = us.map Str.toAsciiLowercase

/-- Joined by spaces, terms say the same up to case only if they are the same up
to case. -/
theorem sameTerms_iff {ts us : List Str} (hts : AreTokens ts) (hus : AreTokens us) :
    Str.eqIgnoreAsciiCase (Str.join [' '] ts) (Str.join [' '] us) = true ↔ SameTerms ts us := by
  have hjoin : ∀ vs : List Str, (Str.join [' '] vs).toAsciiLowercase
      = Str.join [' '] (vs.map Str.toAsciiLowercase) := fun vs => by
    rw [Str.toAsciiLowercase_join]
    rfl
  have hlower : ∀ {vs : List Str}, AreTokens vs → AreTokens (vs.map Str.toAsciiLowercase) := by
    intro vs hvs t ht
    obtain ⟨v, hv, rfl⟩ := List.mem_map.mp ht
    refine ⟨by simpa [Str.toAsciiLowercase] using (hvs v hv).1, fun c hc => ?_⟩
    obtain ⟨x, hx, rfl⟩ := List.mem_map.mp hc
    rw [Str.isWhitespace_toLower]
    exact (hvs v hv).2 x hx
  rw [Str.eqIgnoreAsciiCase, beq_iff_eq, hjoin, hjoin, SameTerms]
  constructor
  · intro h
    -- no term holds a space, so splitting gives the terms back
    have := congrArg Str.splitWhitespace h
    rwa [Str.splitWhitespace_join fun t ht => hlower hts t ht,
      Str.splitWhitespace_join fun t ht => hlower hus t ht] at this
  · exact fun h => by rw [h]

end Gurted.Query
