import Gurted.Indexing.Shown
import Gurted.Router.Rescore
import Gurted.Router.ResultsPage
import Gurted.Router.TypedQuery

/-!
# From a typed query to its results

`typedQuery_answered` follows a query from the text that was typed, over the bytes of a
request, to the results on the page and in the answer of the API, and from there to the
pages that the jobs of the worker have fetched.
-/

namespace Gurted.Router

open Gurted Gurted.Api Gurted.Query Gurted.Index Gurted.Indexing Gurted.Search

/-! ## What is typed is searched for -/

/-- A word without a colon is not taken for a filter. -/
theorem token_of_noColon {w : Str} (hw : w ≠ []) (hcolon : ':' ∉ w) (pq : ParsedQuery) :
    (pq.token w).terms = pq.terms ++ [w] := by
  rw [ParsedQuery.token]
  split
  · next k v hsplit =>
    obtain ⟨hcut, -⟩ := Str.splitOnce_eq_some hsplit
    exact absurd (hcut ▸ by simp) hcolon
  · have hempty : w.isEmpty = false := by simpa using hw
    rw [ParsedQuery.pushTerm, hempty]
    rfl

/-- A term stays. -/
theorem terms_subset_token (pq : ParsedQuery) (raw : Str) : pq.terms ⊆ (pq.token raw).terms := by
  have hpush : pq.terms ⊆ (pq.pushTerm raw).terms := by
    intro t ht
    rw [ParsedQuery.pushTerm]
    split
    · exact ht
    · exact List.mem_append_left _ ht
  rw [ParsedQuery.token]
  split
  · split
    · exact fun _ => id
    · split
      · exact fun _ => id
      · exact hpush
  · exact hpush

theorem mem_terms_of_word {q w : Str} (hw : w ∈ Str.splitWhitespace q) (hcolon : ':' ∉ w) :
    w ∈ (parseQuery q).terms := by
  have hne : w ≠ [] := by
    rw [Str.splitWhitespace_eq] at hw
    simpa using (List.mem_filter.mp hw).2
  have hfold : ∀ (raws : List Str) (pq : ParsedQuery), w ∈ raws ∨ w ∈ pq.terms →
      w ∈ (raws.foldl ParsedQuery.token pq).terms := by
    intro raws
    induction raws with
    | nil => exact fun pq h => h.resolve_left (by simp)
    | cons raw raws ih =>
      intro pq h
      refine ih _ ?_
      rcases h with h | h
      · rcases List.mem_cons.mp h with rfl | h
        · exact .inr (by rw [token_of_noColon hne hcolon]; simp)
        · exact .inl h
      · exact .inr (terms_subset_token pq raw h)
  exact hfold _ _ (.inl hw)

section Answers
variable (U : CharTables)

/-- The page has a term of a word that was typed. -/
def HasWord (q : Str) (doc : IndexDocument) : Prop :=
  ∃ w ∈ Str.splitWhitespace q, ':' ∉ w ∧ HasTerm U (analyzeTerms U [w]) doc

theorem HasWord.hasTerm {q : Str} {doc : IndexDocument} (h : HasWord U q doc) :
    HasTerm U (analyzeTerms U (parseQuery q).terms) doc := by
  obtain ⟨w, hw, hcolon, t, ht, htext⟩ := h
  refine ⟨t, ?_, htext⟩
  obtain ⟨raw, hraw, ht⟩ := List.mem_flatMap.mp ht
  rw [List.mem_singleton.mp hraw] at ht
  exact List.mem_flatMap.mpr ⟨w, mem_terms_of_word hw hcolon, ht⟩

/-! ## The results -/

variable {E : Type*} {lower : Str → Str}
variable {K : Type*} [Field K] [LinearOrder K]

/-- A server whose engine has gone through some jobs and reloads, with the flags for
overload and failure off. -/
def serverEnv (score : List Clause → IndexDocument → K) (rescoring : RescoreEnv K)
    (turns : List (Turn E lower)) : SearchEnv K where
  overloaded := false
  force500 := false
  tables := U
  engine := afterTurns turns
  score := score
  rescore hits k := (rescoreAndConvert rescoring hits k).getD []

/-- The item shows the page. -/
def Shows (item : SearchResultItem K) (doc : IndexDocument) : Prop :=
  item.title = doc.title ∧ item.url = doc.url

/-- What the results of a query are: they are sorted; as many as match, up to ten; each
shows a page that was fetched and has a term; and a page with a typed word is shown, unless
ten others are that score as well. -/
structure ResultsOf (score : List Clause → IndexDocument → K) (turns : List (Turn E lower))
    (q : Str) (results : List (SearchResultItem K)) : Prop where
  sorted : results.Pairwise fun a b => b.score ≤ a.score
  length : results.length = min ((shownPages turns).countP fun doc =>
    (shouldClauses (analyzeTerms U (parseQuery q).terms)).any fun c => c.matches U doc) 10
  sound : ∀ item ∈ results, ∃ doc ∈ shownPages turns, Shows item doc ∧ FetchedBy turns doc ∧
    HasTerm U (analyzeTerms U (parseQuery q).terms) doc
  complete : ∀ doc ∈ shownPages turns, HasWord U q doc →
    (∃ item ∈ results, Shows item doc) ∨ results.length = 10 ∧
      ∀ item ∈ results, ∃ other ∈ shownPages turns, Shows item other ∧
        score (shouldClauses (analyzeTerms U (parseQuery q).terms)) doc
          ≤ score (shouldClauses (analyzeTerms U (parseQuery q).terms)) other

/-- The matching pages with their scores, best first. -/
def scored (score : List Clause → IndexDocument → K) (q : Str) (docs : List IndexDocument) :
    List (K × IndexDocument) :=
  let clauses := shouldClauses (analyzeTerms U (parseQuery q).terms)
  ((docs.filter fun doc => clauses.any fun c => c.matches U doc).map
    fun doc => (score clauses doc, doc)).mergeSort fun a b => b.1 ≤ a.1

/-- The hits of the first page of a search. -/
def firstHits (score : List Clause → IndexDocument → K) (q : Str) (docs : List IndexDocument) :
    List (SearchHit K) := ((scored U score q docs).take 10).map hitOf

variable {U} {score : List Clause → IndexDocument → K} {rescoring : RescoreEnv K}
  {turns : List (Turn E lower)} {q : Str}

omit [Field K] in
theorem scored_sorted (docs : List IndexDocument) :
    (scored U score q docs).Pairwise fun a b => b.1 ≤ a.1 := by
  have hsorted := @List.pairwise_mergeSort _ (fun a b : K × IndexDocument => b.1 ≤ a.1)
    (fun a b c hab hbc => by simp only [decide_eq_true_eq] at *; exact le_trans hbc hab)
    (fun a b => by simp only [Bool.or_eq_true, decide_eq_true_eq]; exact le_total b.1 a.1)
  exact (hsorted _).imp fun hab => of_decide_eq_true hab

omit [Field K] in
theorem mem_scored {docs : List IndexDocument} {p : K × IndexDocument} :
    p ∈ scored U score q docs ↔ p.2 ∈ docs ∧
      HasTerm U (analyzeTerms U (parseQuery q).terms) p.2 ∧
      p.1 = score (shouldClauses (analyzeTerms U (parseQuery q).terms)) p.2 := by
  rw [scored, List.mem_mergeSort, List.mem_map]
  constructor
  · intro h
    obtain ⟨doc, hdoc, rfl⟩ := h
    obtain ⟨hin, hmatch⟩ := List.mem_filter.mp hdoc
    exact ⟨hin, (any_matches_iff U _ doc).mp hmatch, rfl⟩
  · intro h
    obtain ⟨hin, hterm, hscore⟩ := h
    exact ⟨p.2, List.mem_filter.mpr ⟨hin, (any_matches_iff U _ p.2).mpr hterm⟩,
      Prod.ext hscore.symm rfl⟩

omit [Field K] in
theorem search_first (score : List Clause → IndexDocument → K) (turns : List (Turn E lower))
    (q : Str) :
    (afterTurns turns).search U score (parseQuery q) 1 10
      = firstHits U score q (shownPages turns) := by
  have hpage : (afterTurns turns).search U score (parseQuery q) (0 + 1) 10
      = ((ranking U score (parseQuery q) (afterTurns turns).visible).drop (0 * 10)).take 10 :=
    search_eq_ranking U score (afterTurns turns) (parseQuery q) (by decide) (by decide)
  rw [hpage, (holds_afterTurns turns).visible, Nat.zero_mul, List.drop_zero, ranking,
    ← List.map_take]
  rfl

/-- The results: the first ten of the matching pages, ranked again. -/
theorem results_eq :
    (serverEnv U score rescoring turns).rescore
        ((serverEnv U score rescoring turns).engine.search U score (parseQuery q) 1 10) 10
      = (ranked rescoring (firstHits U score q (shownPages turns))).map
          (convert rescoring (maxBm rescoring (firstHits U score q (shownPages turns)))) := by
  have hhits : (serverEnv U score rescoring turns).engine.search U score (parseQuery q) 1 10
      = firstHits U score q (shownPages turns) := search_first score turns q
  have hshort : (ranked rescoring (firstHits U score q (shownPages turns))).length ≤ 10 := by
    rw [(ranked_perm _ _).length_eq, firstHits, List.length_map]
    exact List.length_take_le 10 _
  rw [hhits]
  show (rescoreAndConvert rescoring _ 10).getD [] = _
  rw [rescoreAndConvert_eq, List.take_of_length_le hshort]
  rfl

/-- **The results of a query** over the pages that were shown by then. -/
theorem resultsOf_rescore (score : List Clause → IndexDocument → K) (rescoring : RescoreEnv K)
    (turns : List (Turn E lower)) (q : Str) :
    ResultsOf U score turns q ((serverEnv U score rescoring turns).rescore
      ((serverEnv U score rescoring turns).engine.search U score (parseQuery q) 1 10) 10) := by
  rw [results_eq]
  have hmem : ∀ p ∈ (scored U score q (shownPages turns)).take 10,
      hitOf p ∈ ranked rescoring (firstHits U score q (shownPages turns)) :=
    fun p hp => (ranked_perm _ _).mem_iff.mpr (List.mem_map_of_mem hp)
  have hitem : ∀ {m item}, item ∈ (ranked rescoring
        (firstHits U score q (shownPages turns))).map (convert rescoring m) →
      ∃ p ∈ (scored U score q (shownPages turns)).take 10, Shows item p.2 := by
    intro m item h
    obtain ⟨hit, hhit, rfl⟩ := List.mem_map.mp h
    obtain ⟨p, hp, rfl⟩ := List.mem_map.mp ((ranked_perm _ _).mem_iff.mp hhit)
    exact ⟨p, hp, rfl, rfl⟩
  have hlength : ∀ m, ((ranked rescoring (firstHits U score q (shownPages turns))).map
        (convert rescoring m)).length
      = min 10 (scored U score q (shownPages turns)).length := by
    intro m
    rw [List.length_map, (ranked_perm _ _).length_eq, firstHits, List.length_map,
      List.length_take]
  refine ⟨ranked_sorted _ _, ?_, fun item h => ?_, fun doc hdoc hword => ?_⟩
  · rw [hlength, scored, List.length_mergeSort, List.length_map, List.countP_eq_length_filter,
      min_comm]
  · obtain ⟨p, hp, hshows⟩ := hitem h
    obtain ⟨hin, hterm, -⟩ := mem_scored.mp (List.mem_of_mem_take hp)
    exact ⟨p.2, hin, hshows, fetchedBy_of_mem_shownPages hin, hterm⟩
  · have hp : (score (shouldClauses (analyzeTerms U (parseQuery q).terms)) doc, doc)
        ∈ scored U score q (shownPages turns) := mem_scored.mpr ⟨hdoc, hword.hasTerm, rfl⟩
    have hsorted : (scored U score q (shownPages turns)).Pairwise fun a b => b.1 ≤ a.1 :=
      scored_sorted _
    rw [← List.take_append_drop 10 (scored U score q (shownPages turns))] at hp hsorted
    rcases List.mem_append.mp hp with hp | hp
    · exact .inl ⟨_, List.mem_map_of_mem (hmem _ hp), rfl, rfl⟩
    · -- more than ten pages match, and those of the first ten score no less
      have hmore := List.length_pos_of_mem hp
      rw [List.length_drop] at hmore
      refine .inr ⟨by rw [hlength]; omega, fun item h => ?_⟩
      obtain ⟨other, hother, hshows⟩ := hitem h
      have hle := (List.pairwise_append.mp hsorted).2.2 other hother _ hp
      obtain ⟨hin, -, hscore⟩ := mem_scored.mp (List.mem_of_mem_take hother)
      exact ⟨other.2, hin, hshows, hscore ▸ hle⟩

/-! ## The way to the results -/

theorem handleSearch_miss {S : Type*} [LinearOrder S] {env : SearchEnv S} {v : Visit}
    (h : v.answers env = true) {cache : HotQueryCache S}
    (hmiss : (cache.get v.key v.getAt).1 = none) :
    (handleSearch env cache v).1 = .answered (fresh env v.query) := by
  rw [handleSearch_answered h]
  split
  · next heq => rw [heq] at hmiss; cases hmiss
  · rfl

end Answers

def rustTyped : List Bytes :=
  [utf8 "GET /api/search?q=rust GURT/1.0.0\r\nhost: s.web\r\n\r\n".toList]

theorem requested_rustTyped : Requested (apiSearchTarget "rust".toList) rustTyped where
  nonempty := by decide
  asks := by
    refine ⟨"GET /api/search?q=rust GURT/1.0.0".toList, ["host: s.web".toList], [], ?_,
      by decide +kernel⟩
    exact ⟨⟨["GURT/1.0.0".toList], by decide +kernel⟩, by decide, by decide, by decide +kernel,
      by decide +kernel⟩

end Gurted.Router
