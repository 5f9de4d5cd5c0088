import Mathlib.Data.List.DropRight
import Gurted.Index.Search
import Gurted.Indexing.Process

/-!
# From crawls to hits

The worker runs one job after the other on the `TantivyIndexEngine`, whose reader may also
reload by itself. `found_exactly` follows a page from the answer of its server to the
pages of a search: what is found are the pages that jobs have fetched, taken and
committed, each at one place of one ranking.
-/

namespace Gurted.Indexing

open Gurted Gurted.Query Gurted.Index Gurted.Crawler

variable {E : Type*} {lower : Str → Str}

/-! ## The pages of a job -/

/-- A job of the worker, with what it meets. -/
structure Job (E : Type*) (lower : Str → Str) where
  domain : Str
  table : Storage.DomainsTable lower
  /-- `add` does not count: a `TantivyIndexEngine` answers `Ok`. -/
  env : DomainEnv E
  /-- `add_document` of the writer takes the document. -/
  takes : IndexDocument → Bool

/-- The environment with the `add` of a `TantivyIndexEngine`. -/
def Job.tantivyEnv (job : Job E lower) : DomainEnv E := { job.env with add := fun _ => .ok () }

/-- The document of a page that is there, is HTML and has a host. -/
def pageOf (env : PageEnv E) (url : Str) : Option IndexDocument :=
  match env.fetch url, env.urlHost url with
  | .ok resp, .ok (some domain) =>
      if resp.success && isHtml resp.headers && !domain.isEmpty then
        some (pageDocument env url domain resp)
      else none
  | _, _ => none

/-- The documents a job gives to the engine, and those the writer takes. -/
def Job.pages (job : Job E lower) : List IndexDocument :=
  (collectCandidateUrls job.env.sitemap job.domain).filterMap (pageOf job.env.toPageEnv)

def Job.taken (job : Job E lower) : List IndexDocument := job.pages.filter job.takes

/-- The calls `process_domain` makes on the engine. -/
def Job.calls (job : Job E lower) : List Index.Call :=
  let run := processDomain job.tantivyEnv [] job.table job.domain
  (run.added.map fun doc => .add doc (job.takes doc))
    ++ [.commit job.env.commit.isOk, .refresh job.env.refresh.isOk]

/-- What happens to the engine: a job, or a reload of the reader between the steps of one. -/
inductive Turn (E : Type*) (lower : Str → Str) where
  | job (j : Job E lower)
  | reload

/-- A call that fails is logged. -/
def afterCalls (e : Engine) (calls : List Index.Call) : Engine :=
  calls.foldl (fun e c => match e.call c with | .ok e' => e' | .error _ => e) e

/-- The engine after a turn. -/
def Turn.after (e : Engine) : Turn E lower → Engine
  | .job j => afterCalls e j.calls
  | .reload => { e with visible := e.committed }

def afterTurns (turns : List (Turn E lower)) : Engine := turns.foldl Turn.after .new

/-! ## What is shown -/

def Turn.commits : Turn E lower → Bool
  | .job j => j.env.commit.isOk
  | .reload => false

def Turn.refreshes : Turn E lower → Bool
  | .job j => j.env.refresh.isOk
  | .reload => true

def Turn.taken : Turn E lower → List IndexDocument
  | .job j => j.taken
  | .reload => []

/-- The turns up to the last commit that succeeded. -/
def committedTurns (turns : List (Turn E lower)) : List (Turn E lower) :=
  turns.rdropWhile fun turn => !turn.commits

/-- The turns that were committed at the last refresh that succeeded. -/
def shownTurns (turns : List (Turn E lower)) : List (Turn E lower) :=
  committedTurns (turns.rdropWhile fun turn => !turn.refreshes)

/-- The pages a search can find. -/
def shownPages (turns : List (Turn E lower)) : List IndexDocument :=
  (shownTurns turns).flatMap Turn.taken

/-! ## The calls of a job -/

/-- With the engine of the server every page gets in. -/
theorem indexSingleUrl_pageOf {env : PageEnv E} (hadd : env.add = fun _ => .ok ()) (url : Str)
    (s : CrawlState) :
    (indexSingleUrl env s url).2 = ⟨s.recrawl, s.added ++ (pageOf env url).toList⟩ := by
  rw [indexSingleUrl, pageOf]
  cases hfetch : env.fetch url with
  | error e => simp
  | ok resp =>
    cases hsuccess : resp.success with
    | false => cases env.urlHost url with
      | error e => simp [hsuccess]
      | ok host => cases host <;> simp [hsuccess]
    | true =>
      cases hhtml : isHtml resp.headers with
      | false => cases env.urlHost url with
        | error e => simp [hsuccess, hhtml]
        | ok host => cases host <;> simp [hsuccess, hhtml]
      | true =>
        simp only [hsuccess, hhtml, Bool.not_true, Bool.false_eq_true, if_false]
        cases env.urlHost url with
        | error e => simp
        | ok host =>
          cases host with
          | none => simp
          | some domain =>
            by_cases hne : domain = []
            · simp [hne]
            · have hempty : domain.isEmpty = false := by simpa using hne
              have hpage : (resp.success && isHtml resp.headers && !false) = true := by
                simp [hsuccess, hhtml]
              simp only [Option.getD_some, hempty, Bool.false_eq_true, if_false,
                processFetchedDocument_eq, hadd]
              rw [if_pos hpage]
              rfl

/-- The loop over the candidates adds the page of each. -/
theorem indexPages_added_eq {env : PageEnv E} (hadd : env.add = fun _ => .ok ()) (urls : List Str)
    (s : CrawlState) :
    (indexPages env s urls).added = s.added ++ urls.filterMap (pageOf env) := by
  induction urls generalizing s with
  | nil => simp [indexPages]
  | cons url urls ih =>
    have hstep : indexPages env s (url :: urls)
        = indexPages env (indexSingleUrl env s url).2 urls := rfl
    rw [hstep, ih, indexSingleUrl_pageOf hadd, List.append_assoc]
    cases hpage : pageOf env url <;> simp [hpage]

/-- `add` has no part in what a page is. -/
theorem pageOf_tantivyEnv (job : Job E lower) :
    pageOf job.tantivyEnv.toPageEnv = pageOf job.env.toPageEnv := rfl

theorem calls_eq (job : Job E lower) :
    job.calls = (job.pages.map fun doc => .add doc (job.takes doc))
      ++ [.commit job.env.commit.isOk, .refresh job.env.refresh.isOk] := by
  have hempty : (collectCandidateUrls job.tantivyEnv.sitemap job.domain).isEmpty = false := by
    simpa using collectCandidateUrls_ne_nil job.tantivyEnv.sitemap job.domain
  have hadded : (indexPages job.tantivyEnv.toPageEnv ⟨[], []⟩
      (collectCandidateUrls job.tantivyEnv.sitemap job.domain)).added = job.pages := by
    rw [indexPages_added_eq rfl, pageOf_tantivyEnv, List.nil_append]
    rfl
  simp only [Job.calls, processDomain, hempty, Bool.false_eq_true, if_false, hadded]

/-! ## The engine after some turns -/

theorem afterCalls_adds (e : Engine) (docs : List IndexDocument) (takes : IndexDocument → Bool) :
    afterCalls e (docs.map fun doc => .add doc (takes doc))
      = { e with queued := e.queued ++ docs.filter takes } := by
  induction docs generalizing e with
  | nil => simp [afterCalls]
  | cons doc docs ih =>
    have hstep : afterCalls e ((doc :: docs).map fun doc => .add doc (takes doc))
        = afterCalls (if takes doc then { e with queued := e.queued ++ [doc] } else e)
            (docs.map fun doc => .add doc (takes doc)) := rfl
    rw [hstep, ih]
    cases htakes : takes doc <;> simp [htakes]

/-- What a job leaves: its pages wait for a commit, or are committed with all before. -/
theorem after_job (e : Engine) (job : Job E lower) :
    (Turn.job job).after e =
      let committed := if job.env.commit.isOk then e.committed ++ (e.queued ++ job.taken)
        else e.committed
      ⟨if job.env.commit.isOk then [] else e.queued ++ job.taken, committed,
        if job.env.refresh.isOk then committed else e.visible⟩ := by
  have hsplit : afterCalls e job.calls
      = afterCalls (afterCalls e (job.pages.map fun doc => .add doc (job.takes doc)))
          [.commit job.env.commit.isOk, .refresh job.env.refresh.isOk] := by
    rw [calls_eq, afterCalls, List.foldl_append]
    rfl
  rw [Turn.after, hsplit, afterCalls_adds]
  cases job.env.commit.isOk <;> cases job.env.refresh.isOk <;> rfl

/-- The engine holds the pages of all turns, those up to the last commit apart. -/
structure Holds (turns : List (Turn E lower)) (e : Engine) : Prop where
  all : e.committed ++ e.queued = turns.flatMap Turn.taken
  committed : e.committed = (committedTurns turns).flatMap Turn.taken
  visible : e.visible = shownPages turns

theorem committedTurns_concat (turns : List (Turn E lower)) (turn : Turn E lower) :
    committedTurns (turns ++ [turn])
      = if turn.commits then turns ++ [turn] else committedTurns turns := by
  rw [committedTurns, List.rdropWhile_concat]
  cases turn.commits <;> rfl

theorem shownTurns_concat (turns : List (Turn E lower)) (turn : Turn E lower) :
    shownTurns (turns ++ [turn])
      = if turn.refreshes then committedTurns (turns ++ [turn]) else shownTurns turns := by
  rw [shownTurns, List.rdropWhile_concat]
  cases turn.refreshes <;> rfl

theorem holds_afterTurns (turns : List (Turn E lower)) : Holds turns (afterTurns turns) := by
  induction turns using List.reverseRecOn with
  | nil => exact ⟨rfl, rfl, rfl⟩
  | append_singleton turns turn ih =>
    have hafter : afterTurns (turns ++ [turn]) = turn.after (afterTurns turns) := by
      rw [afterTurns, List.foldl_append]
      rfl
    have hall : (turns ++ [turn]).flatMap Turn.taken = turns.flatMap Turn.taken ++ turn.taken := by
      simp
    rw [hafter]
    cases turn with
    | reload =>
      refine ⟨?_, ?_, ?_⟩
      · rw [hall, ← ih.all]
        exact (List.append_nil _).symm
      · rw [committedTurns_concat]
        exact ih.committed
      · rw [shownPages, shownTurns_concat, committedTurns_concat]
        exact ih.committed
    | job job =>
      rw [after_job]
      have hcommitted : (if job.env.commit.isOk then
            (afterTurns turns).committed ++ ((afterTurns turns).queued ++ job.taken)
          else (afterTurns turns).committed)
          = (committedTurns (turns ++ [.job job])).flatMap Turn.taken := by
        rw [committedTurns_concat]
        cases hcommit : job.env.commit.isOk with
        | true =>
          have hturn : (Turn.job job).commits = true := hcommit
          rw [hturn, if_pos rfl, if_pos rfl, hall, ← ih.all, List.append_assoc]
          rfl
        | false =>
          have hturn : (Turn.job job).commits = false := hcommit
          rw [hturn, if_neg Bool.false_ne_true, if_neg Bool.false_ne_true]
          exact ih.committed
      refine ⟨?_, hcommitted, ?_⟩
      · rw [hall, ← ih.all]
        cases job.env.commit.isOk with
        | true => simp [Turn.taken]
        | false => simp [Turn.taken]
      · rw [shownPages, shownTurns_concat]
        show (if job.env.refresh.isOk then _ else _) = _
        rw [hcommitted]
        cases hrefresh : job.env.refresh.isOk with
        | true =>
          have hturn : (Turn.job job).refreshes = true := hrefresh
          rw [hturn, if_pos rfl, if_pos rfl]
        | false =>
          have hturn : (Turn.job job).refreshes = false := hrefresh
          rw [hturn, if_neg Bool.false_ne_true, if_neg Bool.false_ne_true]
          exact ih.visible

/-! ## Where a page comes from -/

theorem pageOf_eq_some {env : PageEnv E} {url : Str} {doc : IndexDocument}
    (h : pageOf env url = some doc) :
    ∃ resp domain, env.fetch url = .ok resp ∧ resp.success = true ∧ isHtml resp.headers = true ∧
      env.urlHost url = .ok (some domain) ∧ domain ≠ [] ∧
      doc = pageDocument env url domain resp := by
  rw [pageOf] at h
  split at h
  · next resp domain hfetch hhost =>
    rw [Option.ite_none_right_eq_some] at h
    obtain ⟨hpage, heq⟩ := h
    simp only [Bool.and_eq_true, Bool.not_eq_true', List.isEmpty_eq_false_iff] at hpage
    cases heq
    exact ⟨resp, domain, hfetch, hpage.1.1, hpage.1.2, hhost, hpage.2, rfl⟩
  · cases h

/-- One of the jobs has fetched the page: it is among the candidates of the domain, and its
server has answered with it. -/
def FetchedBy (turns : List (Turn E lower)) (doc : IndexDocument) : Prop :=
  ∃ job : Job E lower, .job job ∈ turns ∧
    ∃ url ∈ collectCandidateUrls job.env.sitemap job.domain, ∃ resp domain,
      job.env.fetch url = .ok resp ∧ resp.success = true ∧ isHtml resp.headers = true ∧
      job.env.urlHost url = .ok (some domain) ∧ domain ≠ [] ∧
      doc = pageDocument job.env.toPageEnv url domain resp

theorem fetchedBy_of_mem_taken {turns : List (Turn E lower)} {turn : Turn E lower}
    (hturn : turn ∈ turns) {doc : IndexDocument} (hdoc : doc ∈ turn.taken) :
    FetchedBy turns doc := by
  cases turn with
  | reload => cases hdoc
  | job job =>
    obtain ⟨url, hurl, hpage⟩ := List.mem_filterMap.mp (List.mem_filter.mp hdoc).1
    exact ⟨job, hturn, url, hurl, pageOf_eq_some hpage⟩

theorem fetchedBy_of_mem_committed {turns : List (Turn E lower)} {doc : IndexDocument}
    (h : doc ∈ (committedTurns turns).flatMap Turn.taken) : FetchedBy turns doc := by
  obtain ⟨turn, hturn, hdoc⟩ := List.mem_flatMap.mp h
  exact fetchedBy_of_mem_taken ((List.rdropWhile_prefix _ _).subset hturn) hdoc

/-- **A page that can be found was fetched.** -/
theorem fetchedBy_of_mem_shownPages {turns : List (Turn E lower)} {doc : IndexDocument}
    (h : doc ∈ shownPages turns) : FetchedBy turns doc := by
  obtain ⟨turn, hturn, hdoc⟩ := List.mem_flatMap.mp h
  have hmem : turn ∈ turns :=
    (List.rdropWhile_prefix _ _).subset ((List.rdropWhile_prefix _ _).subset hturn)
  exact fetchedBy_of_mem_taken hmem hdoc

/-! ## All pages of a search -/

section Ranking
variable (U : CharTables) {S : Type*} [LinearOrder S]

/-- The hits of a query, best first, as one list. -/
def ranking (score : List Clause → IndexDocument → S) (query : ParsedQuery)
    (docs : List IndexDocument) : List (SearchHit S) :=
  let clauses := shouldClauses (analyzeTerms U query.terms)
  (((docs.filter fun doc => clauses.any fun c => c.matches U doc).map
    fun doc => (score clauses doc, doc)).mergeSort fun a b => b.1 ≤ a.1).map hitOf

/-- A page of a search is a part of the ranking. -/
theorem search_eq_ranking (score : List Clause → IndexDocument → S) (e : Engine)
    (query : ParsedQuery) {page size : Nat} (hsize : 0 < size) (hfits : page * size < 2 ^ 64) :
    e.search U score query (page + 1) size
      = ((ranking U score query e.visible).drop (page * size)).take size := by
  have hpage : max (page + 1) 1 - 1 = page := by omega
  have hmax : max size 1 = size := by omega
  have hoffset : usizeMul page size = page * size := Nat.mod_eq_of_lt hfits
  rw [Engine.search]
  simp only [hpage, hmax, hoffset]
  by_cases hclauses : shouldClauses (analyzeTerms U query.terms) = []
  · -- nothing to look for: every list is empty
    have hnone : ranking U score query e.visible = [] := by
      simp [ranking, hclauses]
    rw [hnone]
    split
    · simp
    · simp [hclauses]
  · have htokens : analyzeTerms U query.terms ≠ [] := by
      intro h
      rw [h] at hclauses
      exact hclauses rfl
    simp only [List.isEmpty_iff, htokens, hclauses, if_false]
    rw [topDocs, ranking, List.map_take, List.map_drop]

/-- Consecutive parts of a list make up its beginning. -/
theorem flatMap_pages {α : Type*} (l : List α) (size m : Nat) :
    ((List.range m).flatMap fun page => (l.drop (page * size)).take size) = l.take (m * size) := by
  induction m with
  | zero => simp
  | succ m ih =>
    rw [List.range_succ, List.flatMap_append, ih, Nat.succ_mul, List.take_add]
    simp

/-- **All pages of a search**: they go through one ranking of the visible pages that have one
of the terms. -/
theorem exists_ranking (score : List Clause → IndexDocument → S) (e : Engine)
    (query : ParsedQuery) :
    let clauses := shouldClauses (analyzeTerms U query.terms)
    ∃ hits : List (SearchHit S),
      hits.Perm ((e.visible.filter fun doc => clauses.any fun c => c.matches U doc).map
        fun doc => hitOf (score clauses doc, doc)) ∧
      hits.Pairwise (fun a b => b.score ≤ a.score) ∧
      ∀ size m, 0 < size → m * size < 2 ^ 64 →
        ((List.range m).flatMap fun page => e.search U score query (page + 1) size)
          = hits.take (m * size) := by
  intro clauses
  refine ⟨ranking U score query e.visible, ?_, ?_, fun size m hsize hfits => ?_⟩
  · have hperm := (List.mergeSort_perm ((e.visible.filter
      fun doc => clauses.any fun c => c.matches U doc).map fun doc => (score clauses doc, doc))
        fun a b => b.1 ≤ a.1).map hitOf
    rw [List.map_map] at hperm
    exact hperm
  · rw [ranking, List.pairwise_map]
    have hsorted := @List.pairwise_mergeSort _ (fun a b : S × IndexDocument => b.1 ≤ a.1)
      (fun a b c hab hbc => by simp only [decide_eq_true_eq] at *; exact le_trans hbc hab)
      (fun a b => by simp only [Bool.or_eq_true, decide_eq_true_eq]; exact le_total b.1 a.1)
    refine (hsorted _).imp fun hab => ?_
    exact of_decide_eq_true hab
  · rw [← flatMap_pages]
    refine List.flatMap_congr fun page hpage => ?_
    refine search_eq_ranking U score e query hsize (Nat.lt_of_le_of_lt ?_ hfits)
    exact Nat.mul_le_mul_right size (List.mem_range.mp hpage).le

/-- **What searches find.** For every sequence of jobs and reloads and every query: there is
one ranking, best score first, of the pages that were taken and committed before the last
refresh and have one of the terms; a job has fetched each of them; and the first `m` pages of
a search, of whatever `size`, go through the ranking without a gap or a repetition, as far as
`m * size` fits a `usize`. -/
theorem found_exactly (score : List Clause → IndexDocument → S) (turns : List (Turn E lower))
    (query : ParsedQuery) :
    let clauses := shouldClauses (analyzeTerms U query.terms)
    (∀ doc ∈ shownPages turns, FetchedBy turns doc) ∧ ∃ hits : List (SearchHit S),
      hits.Perm (((shownPages turns).filter fun doc => clauses.any fun c => c.matches U doc).map
        fun doc => hitOf (score clauses doc, doc)) ∧
      hits.Pairwise (fun a b => b.score ≤ a.score) ∧
      ∀ size m, 0 < size → m * size < 2 ^ 64 →
        ((List.range m).flatMap fun page =>
          (afterTurns turns).search U score query (page + 1) size) = hits.take (m * size) := by
  intro clauses
  refine ⟨fun doc => fetchedBy_of_mem_shownPages, ?_⟩
  rw [← (holds_afterTurns turns).visible]
  exact exists_ranking U score (afterTurns turns) query

end Ranking

/-- A job with one page about rust, whose refresh fails. -/
def rustJob : Job Unit Str.toAsciiLowercase where
  domain := "a.b".toList
  table := waitingTable
  env :=
    { offlineEnv with
      fetch := fun _ => .ok ⟨200, [], utf8 "<title>Rust</title>".toList⟩
      urlHost := fun _ => .ok (some "a.b".toList)
      commit := .ok () }
  takes := fun _ => true

theorem found_exactly_rust :
    let clauses := shouldClauses (analyzeTerms .latin1 (parseQuery "rust".toList).terms)
    (∀ doc ∈ shownPages [.job rustJob, .reload], FetchedBy [.job rustJob, .reload] doc) ∧
    ∃ hits : List (SearchHit Nat),
      hits.Perm (((shownPages [.job rustJob, .reload]).filter
        fun doc => clauses.any fun c => c.matches .latin1 doc).map fun doc => hitOf (0, doc)) ∧
      hits.Pairwise (fun a b => b.score ≤ a.score) ∧
      ∀ size m, 0 < size → m * size < 2 ^ 64 →
        ((List.range m).flatMap fun page => (afterTurns [.job rustJob, .reload]).search .latin1
          (fun _ _ => 0) (parseQuery "rust".toList) (page + 1) size) = hits.take (m * size) :=
  found_exactly .latin1 (fun _ _ => 0) [.job rustJob, .reload] (parseQuery "rust".toList)

end Gurted.Indexing
