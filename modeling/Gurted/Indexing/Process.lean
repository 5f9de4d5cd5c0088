import Mathlib.Data.Char
import Mathlib.Data.List.Destutter
import Mathlib.Data.List.Lex
import Mathlib.Data.List.Sort
import Gurted.Crawler.Sitemap
import Gurted.Indexing.Fetch
import Gurted.Storage.Domains

/-!
# Crawling a domain (`process_domain` of `gurtd/src/indexing/mod.rs`)

`process_domain` over the outcomes of its fetches and of the calls on the engine
and the database. `leftUnlessDurable_iff` says on which outcomes the status of a
domain is left alone unless a page of it was made durable.
-/

namespace Gurted.Indexing

open Gurted Gurted.Index Gurted.Crawler Gurted.Storage

variable {E : Type*} {lower : Str → Str}

/-- The outcomes a domain meets. -/
structure DomainEnv (E : Type*) extends PageEnv E where
  /-- `fetch_gurt` of the sitemap. -/
  sitemap : Except E ClientResponse
  commit : Except E Unit
  refresh : Except E Unit
  /-- The statement of `set_domain_status`, by attempt. -/
  update : Nat → Except E Unit

/-! ## Candidates -/

/-- `MAX_PAGES_PER_DOMAIN`. -/
def maxPagesPerDomain : Nat := 16

def gurtScheme : Str := "gurt://".toList

def normalizeCandidateUrl (domain raw : Str) : Option Str :=
  let trimmed := raw.trim
  if trimmed.isEmpty then none
  else if trimmed.startsWith gurtScheme then some trimmed
  else if trimmed.startsWith ['/'] then some (gurtScheme ++ domain ++ trimmed)
  else some (gurtScheme ++ domain ++ '/' :: trimmed)

/-- The loop over the entries of the sitemap. -/
def pushEntries (domain : Str) (urls : List Str) : List Str → List Str
  | [] => urls
  | entry :: entries =>
      if maxPagesPerDomain ≤ urls.length then urls
      else
        match normalizeCandidateUrl domain entry with
        | some normalized => pushEntries domain (urls ++ [normalized]) entries
        | none => pushEntries domain urls entries

/-- The entries of a sitemap that was fetched. -/
def sitemapEntries (sitemap : Except E ClientResponse) : List Str :=
  match sitemap with
  | .error _ => []
  | .ok resp =>
      if resp.success then
        match fromUtf8 resp.body with
        | some xml => (parseSitemapXml xml).get (parseSitemapXml_isSome xml)
        | none => []
      else []

/-- `collect_candidate_urls`. -/
def collectCandidateUrls (sitemap : Except E ClientResponse) (domain : Str) : List Str :=
  let urls := pushEntries domain [gurtScheme ++ domain ++ ['/']] (sitemapEntries sitemap)
  -- the loop has counted its pages before equal ones are dropped
  ((urls.insertionSort (· ≤ ·)).destutter (· ≠ ·)).take maxPagesPerDomain

theorem pushEntries_ne_nil (domain : Str) {urls : List Str} (h : urls ≠ []) (entries : List Str) :
    pushEntries domain urls entries ≠ [] := by
  induction entries generalizing urls with
  | nil => exact h
  | cons entry entries ih =>
    rw [pushEntries]
    split
    · exact h
    · split
      · exact ih (by simp)
      · exact ih h

/-- There is always a candidate. -/
theorem collectCandidateUrls_ne_nil (sitemap : Except E ClientResponse) (domain : Str) :
    collectCandidateUrls sitemap domain ≠ [] := by
  have hne := pushEntries_ne_nil domain (List.cons_ne_nil (gurtScheme ++ domain ++ ['/']) [])
    (sitemapEntries sitemap)
  intro h
  rw [collectCandidateUrls, List.take_eq_nil_iff, List.destutter_eq_nil] at h
  rcases h with h | h
  · cases h
  · have hlen := (List.perm_insertionSort (· ≤ ·) (pushEntries domain
      [gurtScheme ++ domain ++ ['/']] (sitemapEntries sitemap))).length_eq
    rw [h, List.length_nil] at hlen
    exact hne (List.length_eq_zero_iff.mp hlen.symm)

theorem isChain_lt {l : List Str} (hle : l.IsChain (· ≤ ·)) (hne : l.IsChain (· ≠ ·)) :
    l.IsChain (· < ·) := by
  induction l with
  | nil => exact .nil
  | cons a l ih =>
    cases l with
    | nil => exact .singleton a
    | cons b l =>
      rw [List.isChain_cons_cons] at hle hne ⊢
      exact ⟨lt_of_le_of_ne hle.1 hne.1, ih hle.2 hne.2⟩

/-- **Each candidate once**: they strictly increase. -/
theorem collectCandidateUrls_pairwise (sitemap : Except E ClientResponse) (domain : Str) :
    (collectCandidateUrls sitemap domain).Pairwise (· < ·) := by
  have hsorted := (List.pairwise_insertionSort (· ≤ ·) (pushEntries domain
    [gurtScheme ++ domain ++ ['/']] (sitemapEntries sitemap))).sublist
      (List.destutter_sublist (· ≠ ·) _)
  have hchain := isChain_lt hsorted.isChain (List.isChain_destutter (· ≠ ·) _)
  exact (List.isChain_iff_pairwise.mp hchain).sublist (List.take_sublist _ _)

/-! ## `process_domain` -/

/-- The loop over the candidates; an error is logged. -/
def indexPages (env : PageEnv E) (s : CrawlState) (urls : List Str) : CrawlState :=
  urls.foldl (fun s url => (indexSingleUrl env s url).2) s

/-- `set_domain_status` with the database answering its statement. A blank name
needs no statement and leaves the same table. -/
def setReady (env : DomainEnv E) (t : DomainsTable lower) (domain : Str) (attempt : Nat) :
    Option (DomainsTable lower) :=
  match setDomainStatus t domain "ready".toList with
  | .error _ => none
  | .ok table =>
      match env.update attempt with
      | .ok () => some table
      | .error _ => none

/-- The retry loop: the first attempt that succeeds. -/
def markReady (env : DomainEnv E) (t : DomainsTable lower) (domain : Str) :
    List Nat → DomainsTable lower
  | [] => t
  | attempt :: attempts => (setReady env t domain attempt).getD (markReady env t domain attempts)

/-- Up to `MAX_ATTEMPTS`. -/
def attempts : List Nat := [1, 2, 3]

/-- What a run of `process_domain` leaves. -/
structure DomainRun (lower : Str → Str) where
  /-- The documents `engine.add` returned `Ok` for. -/
  added : List IndexDocument
  /-- `engine.commit` was called after them and returned `Ok`. -/
  committed : Bool
  refreshed : Bool
  /-- The pages drained from the queue, and the queue. -/
  requeued : List ReCrawlItem
  recrawl : List ReCrawlItem
  table : DomainsTable lower
  /-- `process_domain` returned `Ok`. -/
  ok : Bool

/-- `process_domain` with a queue and a table. A `commit` or `refresh` that fails is
logged. -/
def processDomain (env : DomainEnv E) (recrawl : List ReCrawlItem) (t : DomainsTable lower)
    (domain : Str) : DomainRun lower :=
  let urls := collectCandidateUrls env.sitemap domain
  if urls.isEmpty then ⟨[], false, false, [], recrawl, t, false⟩
  else
    let s := indexPages env.toPageEnv ⟨recrawl, []⟩ urls
    -- whatever failed up to here, the domain is marked
    ⟨s.added, env.commit.isOk, env.refresh.isOk, s.recrawl, [],
      markReady env t domain attempts, true⟩

/-- A page of the domain was added and the commit after it succeeded. -/
def DomainRun.Durable (run : DomainRun lower) : Prop := run.added ≠ [] ∧ run.committed = true

/-- The status of the domain is the one it had, unless a page was made durable. -/
def LeftUnlessDurable (run : DomainRun lower) (t : DomainsTable lower) (domain : Str) : Prop :=
  run.Durable ∨ run.table.statusOf (nameOf domain) = t.statusOf (nameOf domain)

/-! ## What a run leaves -/

/-- **All pages**: one that is added is among the candidates. -/
theorem indexPages_added (env : PageEnv E) (s : CrawlState) (urls : List Str) :
    (indexPages env s urls).added ≠ [] ↔ s.added ≠ [] ∨ ∃ url ∈ urls, PageAdded env url := by
  induction urls generalizing s with
  | nil => simp [indexPages]
  | cons url urls ih =>
    have hstep : indexPages env s (url :: urls)
        = indexPages env (indexSingleUrl env s url).2 urls := rfl
    rw [hstep, ih, List.exists_mem_cons_iff]
    -- the first page decides, or the state is the one before it
    by_cases hadded : PageAdded env url
    · obtain ⟨doc, hstate⟩ := indexSingleUrl_of_added hadded s
      simp [hstate, hadded]
    · rw [indexSingleUrl_of_not_added hadded s]
      simp [hadded]

/-- Marking: the first attempt the database takes counts. -/
theorem markReady_eq (env : DomainEnv E) (t : DomainsTable lower) (domain : Str)
    {table : DomainsTable lower} (htable : setDomainStatus t domain "ready".toList = .ok table)
    (attempts : List Nat) :
    (∃ attempt ∈ attempts, env.update attempt = .ok ()) ∧
        markReady env t domain attempts = table ∨
      (∀ attempt ∈ attempts, env.update attempt ≠ .ok ()) ∧
        markReady env t domain attempts = t := by
  induction attempts with
  | nil => exact .inr ⟨by simp, rfl⟩
  | cons attempt attempts ih =>
    rw [markReady, setReady, htable]
    cases hupdate : env.update attempt with
    | ok u => exact .inl ⟨⟨attempt, by simp, hupdate⟩, rfl⟩
    | error e =>
      rcases ih with ⟨⟨later, hmem, hlater⟩, hmark⟩ | ⟨hnone, hmark⟩
      · exact .inl ⟨⟨later, List.mem_cons_of_mem _ hmem, hlater⟩, hmark⟩
      · refine .inr ⟨fun x hx => ?_, hmark⟩
        rcases List.mem_cons.mp hx with rfl | hx
        · rw [hupdate]
          simp
        · exact hnone x hx

/-- The database takes one of the attempts to mark the domain. -/
def Marks (env : DomainEnv E) : Prop := ∃ attempt ∈ attempts, env.update attempt = .ok ()

/-- **The status a run leaves** does not depend on the pages. -/
theorem processDomain_status (env : DomainEnv E) (recrawl : List ReCrawlItem)
    (t : DomainsTable lower) (domain : Str) :
    (Marks env ∧ nameOf domain ≠ [] ∧
      (processDomain env recrawl t domain).table.statusOf (nameOf domain)
        = (t.statusOf (nameOf domain)).map fun _ => .ready) ∨
    (¬ (Marks env ∧ nameOf domain ≠ []) ∧
      (processDomain env recrawl t domain).table = t) := by
  have hempty : (collectCandidateUrls env.sitemap domain).isEmpty = false := by
    simpa using collectCandidateUrls_ne_nil env.sitemap domain
  have hready : DomainStatus.ofText "ready".toList = some .ready := by decide
  obtain ⟨table, htable⟩ := setDomainStatus_ok t domain hready
  have htab : (processDomain env recrawl t domain).table = markReady env t domain attempts := by
    simp only [processDomain, hempty, Bool.false_eq_true, if_false]
  rw [htab]
  rcases markReady_eq env t domain htable attempts with ⟨hmarks, hmark⟩ | ⟨hnone, hmark⟩
  · by_cases hname : nameOf domain = []
    · rw [setDomainStatus_of_blank t hname, Except.ok.injEq] at htable
      exact .inr ⟨fun h => h.2 hname, hmark.trans htable.symm⟩
    · rw [hmark]
      exact .inl ⟨hmarks, hname, statusOf_setDomainStatus_nameOf hname hready htable⟩
  · refine .inr ⟨?_, hmark⟩
    intro hmarked
    obtain ⟨⟨attempt, hmem, hupdate⟩, -⟩ := hmarked
    exact hnone attempt hmem hupdate

/-- A run is durable if a candidate is added and the commit succeeds. -/
theorem processDomain_durable_iff (env : DomainEnv E) (recrawl : List ReCrawlItem)
    (t : DomainsTable lower) (domain : Str) :
    (processDomain env recrawl t domain).Durable ↔
      (∃ url ∈ collectCandidateUrls env.sitemap domain, PageAdded env.toPageEnv url) ∧
        env.commit.isOk = true := by
  have hempty : (collectCandidateUrls env.sitemap domain).isEmpty = false := by
    simpa using collectCandidateUrls_ne_nil env.sitemap domain
  simp only [DomainRun.Durable, processDomain, hempty, Bool.false_eq_true, if_false,
    indexPages_added, ne_eq, not_true_eq_false, false_or]

/-- **When a status change means durable pages.** For all outcomes: the status is
left as it was unless a page was made durable, if and only if a page is made
durable, or the change fails, or there is nothing to change. -/
theorem leftUnlessDurable_iff (env : DomainEnv E) (recrawl : List ReCrawlItem)
    (t : DomainsTable lower) (domain : Str) :
    LeftUnlessDurable (processDomain env recrawl t domain) t domain ↔
      ((∃ url ∈ collectCandidateUrls env.sitemap domain, PageAdded env.toPageEnv url) ∧
          env.commit.isOk = true) ∨
        ¬ Marks env ∨ nameOf domain = [] ∨
        t.statusOf (nameOf domain) = none ∨ t.statusOf (nameOf domain) = some .ready := by
  rw [LeftUnlessDurable, processDomain_durable_iff]
  refine or_congr_right ?_
  rcases processDomain_status env recrawl t domain with ⟨hmarks, hname, hstatus⟩ | ⟨hnot, htable⟩
  · rw [hstatus]
    cases hst : t.statusOf (nameOf domain) with
    | none => simp
    | some st =>
      simp only [Option.map_some, Option.some.injEq, reduceCtorEq, false_or, hmarks,
        not_true_eq_false, hname]
      exact eq_comm
  · rw [htable]
    refine iff_of_true rfl ?_
    by_cases hmarks : Marks env
    · exact .inr (.inl (by_contra fun hname => hnot ⟨hmarks, hname⟩))
    · exact .inl hmarks

/-- No page can be fetched and the commit fails; the database is there. -/
def offlineEnv : DomainEnv Unit where
  fetch _ := .error ()
  urlHost _ := .error ()
  now _ := 0
  add _ := .ok ()
  sitemap := .error ()
  commit := .error ()
  refresh := .error ()
  update _ := .ok ()

/-- A domain that waits for its crawl. -/
def waitingTable : DomainsTable Str.toAsciiLowercase :=
  ⟨[⟨1, "a.b".toList, some "api".toList, 0, .pending⟩], 2, by decide⟩

/-- Nothing of the domain is stored, and a restart does not list it. -/
theorem not_leftUnlessDurable_offline :
    waitingTable.statusOf (nameOf "a.b".toList) = some .pending ∧
      ¬ LeftUnlessDurable (processDomain offlineEnv [] waitingTable "a.b".toList) waitingTable
        "a.b".toList ∧
      ∀ limit, "a.b".toList ∉
        listPendingDomains (processDomain offlineEnv [] waitingTable "a.b".toList).table limit := by
  have hpending : waitingTable.statusOf (nameOf "a.b".toList) = some .pending := by decide
  have hready : (processDomain offlineEnv [] waitingTable "a.b".toList).table.statusOf
      (nameOf "a.b".toList) = some .ready := by
    rcases processDomain_status offlineEnv [] waitingTable "a.b".toList with
      ⟨-, -, hstatus⟩ | ⟨hnot, -⟩
    · rw [hstatus, hpending]
      rfl
    · exact absurd ⟨⟨1, by decide, rfl⟩, by decide⟩ hnot
  refine ⟨hpending, ?_, fun limit => not_mem_listPendingDomains hready limit⟩
  rintro (hdurable | hleft)
  · rw [processDomain_durable_iff] at hdurable
    cases hdurable.2
  · rw [hready, hpending] at hleft
    cases hleft

end Gurted.Indexing
