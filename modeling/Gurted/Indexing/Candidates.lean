import Gurted.Crawler.RobotsGroups
import Gurted.Indexing.Process

/-!
# Which pages of a domain are fetched (`gurtd/src/indexing/mod.rs`)

`mem_collectCandidateUrls` says what the candidates are: the root and what becomes of
the first entries of the sitemap. Two results go back to it: `confined_iff`, when all of
them lie on the domain, and `obeysRobots_iff`, when its robots.txt allows them.
-/

namespace Gurted.Indexing

open Gurted Gurted.Crawler

variable {E : Type*}

/-! ## The candidates -/

def rootUrl (domain : Str) : Str := gurtScheme ++ domain ++ ['/']

/-- The entries of the sitemap that become candidates: the first ones that are not blank. -/
def countedEntries (sitemap : Except E ClientResponse) : List Str :=
  ((sitemapEntries sitemap).filter fun entry => !entry.trim.isEmpty).take (maxPagesPerDomain - 1)

/-- The entries of a sitemap that is there. -/
theorem sitemapEntries_ok {resp : ClientResponse} {xml : Str} {entries : List Str}
    (hok : resp.success = true) (hbody : resp.body = utf8 xml)
    (hparse : parseSitemapXml xml = some entries) :
    sitemapEntries (.ok resp : Except E ClientResponse) = entries := by
  simp only [sitemapEntries, hok, if_true, hbody, fromUtf8_utf8, hparse, Option.get_some]

/-- An entry that is not blank becomes a candidate. -/
theorem normalizeCandidateUrl_isSome (domain entry : Str) :
    (normalizeCandidateUrl domain entry).isSome = !entry.trim.isEmpty := by
  simp only [normalizeCandidateUrl]
  split
  · next h => rw [h]; rfl
  · next h =>
    rw [Bool.not_eq_true] at h
    rw [h]
    split
    · rfl
    · split
      · rfl
      · rfl

/-- The loop pushes candidates up to the limit. -/
theorem pushEntries_eq (domain : Str) (urls entries : List Str) :
    pushEntries domain urls entries = urls
      ++ (entries.filterMap (normalizeCandidateUrl domain)).take
        (maxPagesPerDomain - urls.length) := by
  induction entries generalizing urls with
  | nil => simp [pushEntries]
  | cons entry entries ih =>
    rw [pushEntries]
    split
    · next hfull =>
      rw [Nat.sub_eq_zero_of_le hfull, List.take_zero, List.append_nil]
    · next hroom =>
      cases hurl : normalizeCandidateUrl domain entry with
      | none => simp only [List.filterMap_cons, hurl, ih]
      | some url =>
        have hsucc : maxPagesPerDomain - urls.length
            = maxPagesPerDomain - (urls ++ [url]).length + 1 := by
          rw [List.length_append, List.length_singleton]
          omega
        simp only [List.filterMap_cons, hurl, ih, hsucc, List.take_succ_cons, List.append_assoc,
          List.singleton_append]

theorem mem_take_filterMap {α β : Type*} {f : α → Option β} {p : α → Bool}
    (hp : ∀ a, (f a).isSome = p a) {l : List α} {n : Nat} {b : β} :
    b ∈ (l.filterMap f).take n ↔ ∃ a ∈ (l.filter p).take n, f a = some b := by
  induction l generalizing n with
  | nil => simp
  | cons a l ih =>
    rw [List.filterMap_cons, List.filter_cons, ← hp a]
    cases ha : f a with
    | none => exact ih
    | some b' =>
      cases n with
      | zero => simp
      | succ n =>
        simp only [List.take_succ_cons, List.mem_cons, ih, Option.isSome_some, if_true,
          exists_eq_or_imp, ha, Option.some.injEq]
        rw [eq_comm]

/-- Equal neighbours are dropped, and nothing else. -/
theorem mem_destutter_ne {α : Type*} [DecidableEq α] {a : α} {l : List α} :
    a ∈ l.destutter (· ≠ ·) ↔ a ∈ l := by
  refine ⟨fun h => (List.destutter_sublist _ l).mem h, fun h => ?_⟩
  cases l with
  | nil => exact h
  | cons b l =>
    rw [List.destutter_cons']
    induction l generalizing b with
    | nil => exact h
    | cons c l ih =>
      rw [List.destutter'_cons]
      split
      · rcases List.mem_cons.mp h with rfl | h
        · exact List.mem_cons_self ..
        · exact List.mem_cons_of_mem _ (ih c h)
      · next heq =>
        -- `c` is the `b` before it
        rw [not_not] at heq
        refine ih b ?_
        rcases List.mem_cons.mp h with rfl | h
        · exact List.mem_cons_self ..
        · rwa [heq]

/-- **What the candidates are.** Sorting and dropping equal ones loses none, and the limit
is kept by the loop already. -/
theorem mem_collectCandidateUrls {sitemap : Except E ClientResponse} {domain url : Str} :
    url ∈ collectCandidateUrls sitemap domain ↔
      url = rootUrl domain ∨
        ∃ entry ∈ countedEntries sitemap, normalizeCandidateUrl domain entry = some url := by
  have hpush := pushEntries_eq domain [rootUrl domain] (sitemapEntries sitemap)
  have hlen : (pushEntries domain [rootUrl domain] (sitemapEntries sitemap)).length
      ≤ maxPagesPerDomain := by
    rw [hpush, List.length_append, List.length_take, List.length_singleton, maxPagesPerDomain]
    omega
  have hshort := ((List.destutter_sublist (· ≠ ·) ((pushEntries domain [rootUrl domain]
    (sitemapEntries sitemap)).insertionSort (· ≤ ·))).length_le.trans_eq
      (List.perm_insertionSort (· ≤ ·) _).length_eq).trans hlen
  show url ∈ (((pushEntries domain [rootUrl domain] (sitemapEntries sitemap)).insertionSort
    (· ≤ ·)).destutter (· ≠ ·)).take maxPagesPerDomain ↔ _
  rw [List.take_of_length_le hshort, mem_destutter_ne,
    (List.perm_insertionSort (· ≤ ·) _).mem_iff, hpush, List.mem_append, List.mem_singleton,
    mem_take_filterMap (normalizeCandidateUrl_isSome domain)]
  rfl

/-! ## The pages that are fetched -/

/-- The loop of `process_domain`, with the URLs it has handed to `fetch_gurt`: the first
thing `index_single_url` does. -/
def fetchPages (env : PageEnv E) (s : CrawlState × List Str) (urls : List Str) :
    CrawlState × List Str :=
  urls.foldl (fun s url => ((indexSingleUrl env s.1 url).2, s.2 ++ [url])) s

/-- The loop is the one of `process_domain`, and every candidate is fetched. -/
theorem fetchPages_eq (env : PageEnv E) (s : CrawlState × List Str) (urls : List Str) :
    fetchPages env s urls = (indexPages env s.1 urls, s.2 ++ urls) := by
  rw [fetchPages]
  induction urls generalizing s with
  | nil => rw [List.append_nil]; rfl
  | cons url urls ih =>
    rw [List.foldl_cons, ih, List.append_assoc]
    rfl

/-- The pages a run of `process_domain` fetches. -/
def fetchedPages (env : DomainEnv E) (recrawl : List ReCrawlItem) (domain : Str) : List Str :=
  (fetchPages env.toPageEnv (⟨recrawl, []⟩, []) (collectCandidateUrls env.sitemap domain)).2

theorem fetchedPages_eq (env : DomainEnv E) (recrawl : List ReCrawlItem) (domain : Str) :
    fetchedPages env recrawl domain = collectCandidateUrls env.sitemap domain := by
  rw [fetchedPages, fetchPages_eq]
  rfl

/-! ## Pages of other hosts -/

/-- `gurt://domain`, and then nothing or a path. -/
def OnDomain (domain url : Str) : Prop :=
  ∃ rest, url = gurtScheme ++ domain ++ rest ∧ (rest = [] ∨ rest.head? = some '/')

/-- All candidates, and all pages a job fetches, are on the domain. -/
structure Confined (env : DomainEnv E) (domain : Str) : Prop where
  candidates : ∀ url ∈ collectCandidateUrls env.sitemap domain, OnDomain domain url
  fetched : ∀ recrawl, ∀ url ∈ fetchedPages env recrawl domain, OnDomain domain url

/-- What becomes of an entry is on the domain, unless the entry has a scheme: then it is
taken as it is. -/
theorem onDomain_normalizeCandidateUrl {domain entry url : Str}
    (h : normalizeCandidateUrl domain entry = some url) :
    OnDomain domain url ↔
      (entry.trim.startsWith gurtScheme = true → OnDomain domain entry.trim) := by
  simp only [normalizeCandidateUrl] at h
  split at h
  · cases h
  · split at h
    · next hscheme =>
      cases h
      exact ⟨fun h _ => h, fun h => h hscheme⟩
    · next hscheme =>
      refine iff_of_true ?_ fun h => absurd h hscheme
      split at h
      · next hslash =>
        cases h
        obtain ⟨path, hpath⟩ := List.isPrefixOf_iff_prefix.mp hslash
        exact ⟨entry.trim, rfl, .inr (by rw [← hpath]; rfl)⟩
      · cases h
        exact ⟨'/' :: entry.trim, rfl, .inr rfl⟩

theorem onDomain_rootUrl (domain : Str) : OnDomain domain (rootUrl domain) := ⟨['/'], rfl, .inr rfl⟩

/-- **Which sitemaps keep a job on its domain**: those whose counted entries with a scheme
go on with the domain, and then with nothing or a path. -/
theorem confined_iff (env : DomainEnv E) (domain : Str) :
    Confined env domain ↔
      ∀ entry ∈ countedEntries env.sitemap,
        entry.trim.startsWith gurtScheme = true → OnDomain domain entry.trim := by
  constructor
  · intro h entry hentry
    obtain ⟨url, hurl⟩ : ∃ url, normalizeCandidateUrl domain entry = some url := by
      rw [← Option.isSome_iff_exists, normalizeCandidateUrl_isSome]
      exact (List.mem_filter.mp (List.mem_of_mem_take hentry)).2
    exact (onDomain_normalizeCandidateUrl hurl).mp
      (h.candidates url (mem_collectCandidateUrls.mpr (.inr ⟨entry, hentry, hurl⟩)))
  · intro h
    have hall : ∀ url ∈ collectCandidateUrls env.sitemap domain, OnDomain domain url := by
      intro url hurl
      rcases mem_collectCandidateUrls.mp hurl with rfl | ⟨entry, hentry, hnormalize⟩
      · exact onDomain_rootUrl domain
      · exact (onDomain_normalizeCandidateUrl hnormalize).mpr (h entry hentry)
    exact ⟨hall, fun recrawl url hurl => hall url (by rwa [fetchedPages_eq] at hurl)⟩

/-- A page of another host. -/
def victimUrl : Str := "gurt://victim.b/x".toList

/-- Its only entry names the other host. -/
def victimSitemap : Str := "<loc>".toList ++ victimUrl ++ "</loc>".toList

/-- The sitemap is there, and no page. -/
def victimEnv : DomainEnv Unit :=
  { offlineEnv with sitemap := .ok ⟨200, [], utf8 victimSitemap⟩ }

theorem victimUrl_mem : victimUrl ∈ collectCandidateUrls victimEnv.sitemap "a.b".toList := by
  have hnext : nextLoc victimSitemap = some (some (victimUrl, [])) := by decide +kernel
  have hparse : parseSitemapXml victimSitemap = some [victimUrl] := by
    rw [parseSitemapXml_of_next hnext, parseSitemapXml_of_stop (by decide)]
    decide
  have hentries : sitemapEntries victimEnv.sitemap = [victimUrl] :=
    sitemapEntries_ok rfl rfl hparse
  refine mem_collectCandidateUrls.mpr (.inr ⟨victimUrl, ?_, by decide⟩)
  rw [countedEntries, hentries]
  decide

/-- The job fetches the page of the other host. -/
theorem not_confined_victim : ¬ Confined victimEnv "a.b".toList := by
  intro h
  obtain ⟨rest, hrest, -⟩ := h.candidates victimUrl victimUrl_mem
  have hprefix : (gurtScheme ++ "a.b".toList).isPrefixOf victimUrl = true :=
    List.isPrefixOf_iff_prefix.mpr ⟨rest, hrest.symm⟩
  exact absurd hprefix (by decide)

/-! ## Pages that robots.txt shuts -/

section Robots
variable (robotsBody : Bytes) (userAgent domain : Str) (urlPath : Str → Str)

/-- A URL of the domain has a path that the parsed robots.txt allows; `urlPath` is the `path`
of `url::Url::parse`. -/
def Allowed (env : PageEnv E) (url : Str) : Prop :=
  env.urlHost url = .ok (some domain) →
    ∀ robots, RobotsTxt.parse (robotsText robotsBody) = some robots →
      isAllowedWithRobots (some robots) userAgent (urlPath url) = some true

/-- Every page of the domain that a job fetches is allowed. -/
def ObeysRobots (env : DomainEnv E) : Prop :=
  ∀ recrawl, ∀ url ∈ fetchedPages env recrawl domain,
    Allowed robotsBody userAgent domain urlPath env.toPageEnv url

/-- **Which files are obeyed**: robots.txt is not asked, so it is obeyed exactly when it
allows the root and what becomes of the counted entries of the sitemap. -/
theorem obeysRobots_iff (env : DomainEnv E) :
    ObeysRobots robotsBody userAgent domain urlPath env ↔
      Allowed robotsBody userAgent domain urlPath env.toPageEnv (rootUrl domain) ∧
        ∀ entry ∈ countedEntries env.sitemap, ∀ url, normalizeCandidateUrl domain entry = some url →
          Allowed robotsBody userAgent domain urlPath env.toPageEnv url := by
  simp only [ObeysRobots, fetchedPages_eq, mem_collectCandidateUrls]
  constructor
  · intro h
    exact ⟨h [] _ (.inl rfl), fun entry hentry url hurl => h [] url (.inr ⟨entry, hentry, hurl⟩)⟩
  · rintro ⟨hroot, hentries⟩ _ url (rfl | ⟨entry, hentry, hurl⟩)
    · exact hroot
    · exact hentries entry hentry url hurl

end Robots

/-- Everything is shut for everyone. -/
def shutFile : Str := "User-agent: *\nDisallow: /\n".toList

/-- There is a root, and no sitemap. -/
def rootEnv : DomainEnv Unit :=
  { offlineEnv with
    fetch := fun _ => .ok ⟨200, [], []⟩
    urlHost := fun url =>
      if url = rootUrl "a.b".toList then .ok (some "a.b".toList) else .error () }

/-- The root is fetched. -/
theorem not_obeysRobots_shutFile :
    ¬ ObeysRobots (utf8 shutFile) "gurtd".toList "a.b".toList (fun _ => ['/']) rootEnv := by
  intro h
  have hparse : RobotsTxt.parse (robotsText (utf8 shutFile))
      = some ⟨[⟨['*'], [], [['/']], none⟩]⟩ := by
    rw [robotsText, fromUtf8_utf8]
    decide
  have hfetched : rootUrl "a.b".toList ∈ fetchedPages rootEnv [] "a.b".toList := by
    rw [fetchedPages_eq]
    exact mem_collectCandidateUrls.mpr (.inl rfl)
  have hallowed := h [] _ hfetched rfl _ hparse
  have hshut : isAllowedWithRobots (some ⟨[⟨['*'], [], [['/']], none⟩]⟩) "gurtd".toList ['/']
      = some false := by decide
  rw [hshut] at hallowed
  cases hallowed

end Gurted.Indexing
