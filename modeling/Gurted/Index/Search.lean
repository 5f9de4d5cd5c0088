import Mathlib.Order.Lattice
import Gurted.Std.Json
import Gurted.Std.Num
import Gurted.Query.Parse
import Gurted.Index.Analysis
import Gurted.Index.Engine

/-!
# Searching (`TantivyIndexEngine::search` of `gurt-index/src/tantivy.rs`)

A query becomes one `Should` clause per analyzed term and text field. Tantivy
returns the documents that match a clause, best score first; the score function
is a parameter. `site_honoured_iff` says for which index contents the hits of a
query respect its site filter.
-/

namespace Gurted.Index

open Gurted Gurted.Query

variable (U : CharTables) {S : Type*}

structure SearchHit (S : Type*) where
  title : Str
  url : Str
  domain : Str
  fetchTime : Int
  score : S

/-! ## The hits -/

/-- What `to_json` gives for a stored document: the values of each field. -/
def storedJson (doc : IndexDocument) : Json :=
  .object
    [("url".toList, .array [.string doc.url]), ("domain".toList, .array [.string doc.domain]),
      ("title".toList, .array [.string doc.title]),
    ("content".toList, .array [.string doc.content]),
      ("fetch_time".toList, .array [.number doc.fetchTime]),
      ("language".toList, .array [.string doc.language]),
      ("render_mode".toList, .array [.string doc.renderMode])]

/-- `first_str`. -/
def firstStr : Json → Option Str
  | .string s => some s
  | .array xs => xs.findSome? Json.asStr
  | .object fields =>
      ["value".toList, "text".toList, "raw".toList].findSome? fun key =>
        ((Json.object fields).get key).bind Json.asStr
  | _ => none

/-- `first_i64`. -/
def firstI64 : Json → Option Int
  | .number n => some n
  | .array xs => xs.findSome? Json.asI64
  | .object fields => ((Json.object fields).get "value".toList).bind Json.asI64
  | _ => none

/-- A result of the searcher as a hit. -/
def hitOf (p : S × IndexDocument) : SearchHit S :=
  let v := storedJson p.2
  ⟨((v.get "title".toList).bind firstStr).getD [], ((v.get "url".toList).bind firstStr).getD [],
    ((v.get "domain".toList).bind firstStr).getD [],
    ((v.get "fetch_time".toList).bind firstI64).getD 0, p.1⟩

/-- A hit carries the stored fields. -/
theorem hitOf_eq (p : S × IndexDocument) :
    hitOf p = ⟨p.2.title, p.2.url, p.2.domain, p.2.fetchTime, p.1⟩ := rfl

variable [LinearOrder S]

/-! ## The query -/

/-- The text fields a term is looked for in. -/
inductive TextField where
  | title
  | content
  deriving DecidableEq, Repr

/-- A `TermQuery` with `Occur::Should`. -/
structure Clause where
  field : TextField
  term : Str
  deriving DecidableEq, Repr

def IndexDocument.text (doc : IndexDocument) : TextField → Str
  | .title => doc.title
  | .content => doc.content

/-- The clauses built from the analyzed terms. -/
def shouldClauses (tokens : List Str) : List Clause :=
  tokens.flatMap fun t => [⟨.title, t⟩, ⟨.content, t⟩]

/-- A term query matches a document whose field has the term among its tokens. -/
def Clause.matches (c : Clause) (doc : IndexDocument) : Bool :=
  (enStops U (doc.text c.field)).contains c.term

/-- `searcher.search` with a `BooleanQuery` of these clauses and
`TopDocs::with_limit(limit).and_offset(offset)`. -/
def topDocs (score : List Clause → IndexDocument → S) (clauses : List Clause)
    (docs : List IndexDocument) (limit offset : Nat) : List (S × IndexDocument) :=
  let hits := (docs.filter fun doc => clauses.any fun c => c.matches U doc).map
    fun doc => (score clauses doc, doc)
  ((hits.mergeSort fun a b => b.1 ≤ a.1).drop offset).take limit

/-- `search`. The filters of the query are not part of what is executed. -/
def Engine.search (score : List Clause → IndexDocument → S) (e : Engine) (query : ParsedQuery)
    (page size : Nat) : List (SearchHit S) :=
  let page := max page 1
  let size := max size 1
  let offset := usizeMul (page - 1) size
  let tokens := analyzeTerms U query.terms
  if tokens.isEmpty then []
  else
    let clauses := shouldClauses tokens
    if clauses.isEmpty then []
    else (topDocs U score clauses e.visible size offset).map hitOf

/-- A search depends on the terms up to ASCII case, and on nothing else of the
query. -/
theorem search_congr (score : List Clause → IndexDocument → S) (e : Engine)
    {pq pq' : ParsedQuery} (h : SameTerms pq.terms pq'.terms) (page size : Nat) :
    e.search U score pq page size = e.search U score pq' page size := by
  have hterms : analyzeTerms U pq.terms = analyzeTerms U pq'.terms := by
    rw [← analyzeTerms_toAsciiLowercase, h, analyzeTerms_toAsciiLowercase]
  simp only [Engine.search, hterms]

/-! ## What comes back -/

/-- The document has one of the terms in its title or content. -/
def HasTerm (tokens : List Str) (doc : IndexDocument) : Prop :=
  ∃ t ∈ tokens, t ∈ enStops U doc.title ∨ t ∈ enStops U doc.content

theorem any_matches_iff (tokens : List Str) (doc : IndexDocument) :
    ((shouldClauses tokens).any fun c => c.matches U doc) = true ↔ HasTerm U tokens doc := by
  simp only [List.any_eq_true, shouldClauses, List.mem_flatMap, List.mem_cons, List.not_mem_nil,
    or_false, Clause.matches, List.contains_iff_mem, HasTerm]
  constructor
  · rintro ⟨c, ⟨t, ht, rfl | rfl⟩, hmatch⟩
    · exact ⟨t, ht, .inl hmatch⟩
    · exact ⟨t, ht, .inr hmatch⟩
  · rintro ⟨t, ht, hmatch | hmatch⟩
    · exact ⟨_, ⟨t, ht, .inl rfl⟩, hmatch⟩
    · exact ⟨_, ⟨t, ht, .inr rfl⟩, hmatch⟩

theorem mem_topDocs {score : List Clause → IndexDocument → S} {tokens : List Str}
    {docs : List IndexDocument} {limit offset : Nat} {p : S × IndexDocument}
    (h : p ∈ topDocs U score (shouldClauses tokens) docs limit offset) :
    p.2 ∈ docs ∧ HasTerm U tokens p.2 := by
  have hmem := List.mem_mergeSort.mp (List.mem_of_mem_drop (List.mem_of_mem_take h))
  obtain ⟨doc, hdoc, rfl⟩ := List.mem_map.mp hmem
  obtain ⟨hin, hmatch⟩ := List.mem_filter.mp hdoc
  exact ⟨hin, (any_matches_iff U tokens doc).mp hmatch⟩

/-- A first page that is large enough holds every match. -/
theorem mem_topDocs_of_hasTerm {score : List Clause → IndexDocument → S} {tokens : List Str}
    {docs : List IndexDocument} {doc : IndexDocument} {limit : Nat} (hdoc : doc ∈ docs)
    (h : HasTerm U tokens doc) (hlimit : docs.length ≤ limit) :
    (score (shouldClauses tokens) doc, doc)
      ∈ topDocs U score (shouldClauses tokens) docs limit 0 := by
  rw [topDocs, List.drop_zero, List.take_of_length_le]
  · refine List.mem_mergeSort.mpr (List.mem_map.mpr ⟨doc, ?_, rfl⟩)
    exact List.mem_filter.mpr ⟨hdoc, (any_matches_iff U tokens doc).mpr h⟩
  · rw [List.length_mergeSort, List.length_map]
    exact (List.length_filter_le _ _).trans hlimit

/-- **The hits of all pages** are the visible documents with one of the terms. -/
theorem exists_hit_iff (score : List Clause → IndexDocument → S) (e : Engine)
    (query : ParsedQuery) (domain : Str) :
    (∃ page size, ∃ hit ∈ e.search U score query page size, hit.domain = domain) ↔
      ∃ doc ∈ e.visible, HasTerm U (analyzeTerms U query.terms) doc ∧ doc.domain = domain := by
  constructor
  · intro h
    obtain ⟨page, size, hit, hhit, rfl⟩ := h
    simp only [Engine.search] at hhit
    split at hhit
    · cases hhit
    · split at hhit
      · cases hhit
      · obtain ⟨p, hp, rfl⟩ := List.mem_map.mp hhit
        obtain ⟨hdoc, hterm⟩ := mem_topDocs U hp
        exact ⟨p.2, hdoc, hterm, rfl⟩
  · intro h
    obtain ⟨doc, hdoc, hterm, rfl⟩ := h
    refine ⟨1, e.visible.length,
      hitOf (score (shouldClauses (analyzeTerms U query.terms)) doc, doc), ?_,
      congrArg SearchHit.domain (hitOf_eq _)⟩
    obtain ⟨t, ht, -⟩ := id hterm
    have htokens : (analyzeTerms U query.terms).isEmpty = false := by
      simpa using List.ne_nil_of_mem ht
    have hclauses : (shouldClauses (analyzeTerms U query.terms)).isEmpty = false := by
      have hmem : (⟨.title, t⟩ : Clause) ∈ shouldClauses (analyzeTerms U query.terms) :=
        List.mem_flatMap.mpr ⟨t, ht, by simp⟩
      simpa using List.ne_nil_of_mem hmem
    have hoffset : usizeMul (max 1 1 - 1) (max e.visible.length 1) = 0 := by simp [usizeMul]
    simp only [Engine.search, htokens, hclauses, hoffset, Bool.false_eq_true, if_false]
    exact List.mem_map_of_mem (mem_topDocs_of_hasTerm U hdoc hterm (le_max_left ..))

/-- The domain is the one the query asks for, if it asks for one. -/
def OnSite (query : ParsedQuery) (domain : Str) : Prop :=
  ∀ site, query.filters.site = some site → Str.eqIgnoreAsciiCase domain site = true

/-- Every hit, on every page, is on the site of the query. -/
def SiteHonoured (score : List Clause → IndexDocument → S) (e : Engine)
    (query : ParsedQuery) : Prop :=
  ∀ page size, ∀ hit ∈ e.search U score query page size, OnSite query hit.domain

/-- **When a site filter is honoured.** For every index content and every query
string: all hits are on the site of the query if and only if every visible
document with one of its terms is. -/
theorem site_honoured_iff (score : List Clause → IndexDocument → S) (e : Engine) (q : Str) :
    SiteHonoured U score e (parseQuery q) ↔
      ∀ doc ∈ e.visible, HasTerm U (analyzeTerms U (parseQuery q).terms) doc →
        OnSite (parseQuery q) doc.domain := by
  constructor
  · intro h doc hdoc hterm
    obtain ⟨page, size, hit, hhit, hdomain⟩ :=
      (exists_hit_iff U score e (parseQuery q) doc.domain).mpr ⟨doc, hdoc, hterm, rfl⟩
    exact hdomain ▸ h page size hit hhit
  · intro h page size hit hhit
    obtain ⟨doc, hdoc, hterm, hdomain⟩ :=
      (exists_hit_iff U score e (parseQuery q) hit.domain).mp ⟨page, size, hit, hhit, rfl⟩
    exact hdomain ▸ h doc hdoc hterm

/-- A page of `b.com` about rust. -/
def rustPage : IndexDocument :=
  ⟨"gurt://b.com/".toList, "b.com".toList, "rust".toList, [], 0, "en".toList, "static".toList⟩

/-- A query for another site finds it all the same. -/
theorem not_site_honoured_rustPage :
    (parseQuery "rust site:a.com".toList).filters.site = some "a.com".toList ∧
      ¬ SiteHonoured .latin1 (fun _ _ => (0 : Nat)) ⟨[], [rustPage], [rustPage]⟩
        (parseQuery "rust site:a.com".toList) := by
  have hsite : (parseQuery "rust site:a.com".toList).filters.site = some "a.com".toList := by decide
  refine ⟨hsite, fun h => ?_⟩
  have hterm : HasTerm .latin1
      (analyzeTerms .latin1 (parseQuery "rust site:a.com".toList).terms) rustPage :=
    ⟨"rust".toList, by decide, .inl (by decide)⟩
  obtain ⟨page, size, hit, hhit, hdomain⟩ :=
    (exists_hit_iff .latin1 (fun _ _ => (0 : Nat)) ⟨[], [rustPage], [rustPage]⟩ _ _).mpr
      ⟨rustPage, by simp, hterm, rfl⟩
  have hon := h page size hit hhit _ hsite
  rw [hdomain] at hon
  exact absurd hon (by decide)

end Gurted.Index
