import Gurted.Indexing.Candidates
import Gurted.Lib.Distinct

/-!
# The budget of a domain (`gurtd/src/indexing/mod.rs`)

`collect_candidate_urls` counts its pages before it drops the equal ones, so a page that
is listed again uses up a place. `withinBudget_iff` says for which sitemaps this costs no
other page.
-/

namespace Gurted.Indexing

open Gurted Gurted.Lib Gurted.Crawler

variable {E : Type*}

/-! ## The candidates and the budget -/

/-- The root, then what becomes of the entries that are not blank, in order. -/
def candidateSequence (domain : Str) (entries : List Str) : List Str :=
  rootUrl domain :: entries.filterMap (normalizeCandidateUrl domain)

/-- The candidates are the first distinct URLs of the sequence, each once and in order. -/
structure WithinBudget (sitemap : Except E ClientResponse) (domain : Str) : Prop where
  increasing : (collectCandidateUrls sitemap domain).Pairwise (· < ·)
  bounded : (collectCandidateUrls sitemap domain).length ≤ maxPagesPerDomain
  root_mem : rootUrl domain ∈ collectCandidateUrls sitemap domain
  mem_iff : ∀ url, url ∈ collectCandidateUrls sitemap domain ↔
    url ∈ (candidateSequence domain (sitemapEntries sitemap)).eraseDups.take maxPagesPerDomain

/-- The candidates are the first URLs of the sequence, equal ones counted. -/
theorem mem_collectCandidateUrls_iff_take {sitemap : Except E ClientResponse} {domain url : Str} :
    url ∈ collectCandidateUrls sitemap domain ↔
      url ∈ (candidateSequence domain (sitemapEntries sitemap)).take maxPagesPerDomain := by
  rw [mem_collectCandidateUrls, countedEntries,
    ← mem_take_filterMap (normalizeCandidateUrl_isSome domain), candidateSequence,
    maxPagesPerDomain, List.take_succ_cons, List.mem_cons]

/-- **Which sitemaps are kept to the budget**: those without a URL twice in the first places,
and those whose URLs are all there. -/
theorem withinBudget_iff (sitemap : Except E ClientResponse) (domain : Str) :
    WithinBudget sitemap domain ↔
      ((candidateSequence domain (sitemapEntries sitemap)).take maxPagesPerDomain).Nodup ∨
        ∀ url ∈ candidateSequence domain (sitemapEntries sitemap),
          url ∈ (candidateSequence domain (sitemapEntries sitemap)).take maxPagesPerDomain := by
  rw [← mem_take_eraseDups_iff]
  simp only [← mem_collectCandidateUrls_iff_take]
  refine ⟨WithinBudget.mem_iff, fun h => ?_⟩
  exact {
    increasing := collectCandidateUrls_pairwise sitemap domain
    bounded := List.length_take_le _ _
    root_mem := mem_collectCandidateUrls.mpr (.inl rfl)
    mem_iff := h }

/-- The root is listed again, before fifteen other pages. -/
def rootAgainUrls : List Str := ['/'] :: "abcdefghijklmno".toList.map fun c => ['/', c]

def rootAgainSitemap : Except Unit ClientResponse := .ok ⟨200, [], utf8 (locs rootAgainUrls)⟩

theorem sitemapEntries_rootAgain : sitemapEntries rootAgainSitemap = rootAgainUrls := by
  have hparse := @parseSitemapXml_locs rootAgainUrls (by decide)
  rw [rootAgainSitemap, sitemapEntries_ok rfl rfl hparse]
  decide

/-- The last page is lost to the root. -/
theorem not_withinBudget_rootAgain : ¬ WithinBudget rootAgainSitemap "a.b".toList := by
  intro h
  have hlast := (h.mem_iff "gurt://a.b/o".toList).mpr (by
    rw [sitemapEntries_rootAgain]
    decide)
  rw [mem_collectCandidateUrls_iff_take, sitemapEntries_rootAgain] at hlast
  exact absurd hlast (by decide)

end Gurted.Indexing
