import Gurted.Crawler.Pipeline
import Gurted.Std.Utf8

/-!
# Indexing one page (`gurtd/src/indexing/fetch.rs`)

`index_single_url` over the outcomes of what it calls outside: the fetch, the
parse of the URL and the engine. `PageAdded` says on which outcomes the page gets
into the engine.
-/

namespace Gurted.Indexing

open Gurted Gurted.Index Gurted.Crawler

variable {E : Type*}

/-- `crawler::client::ClientResponse`. -/
structure ClientResponse where
  code : Nat
  headers : List (Str × Str)
  body : Bytes
  deriving DecidableEq, Repr

/-- `(200..300).contains(&code)`. -/
def ClientResponse.success (resp : ClientResponse) : Bool := 200 ≤ resp.code && resp.code < 300

/-- The outcomes the pages of a domain meet; `E` is `anyhow::Error`. -/
structure PageEnv (E : Type*) where
  /-- `fetch_gurt`, once for every page. -/
  fetch : Str → Except E ClientResponse
  /-- The `host_str` of `url::Url::parse`. -/
  urlHost : Str → Except E (Option Str)
  /-- `current_unix_timestamp` when the page has been fetched. -/
  now : Str → Int
  add : IndexDocument → Except E Unit

/-! ## `index_single_url` -/

def headerValue (headers : List (Str × Str)) (name : Str) : Option Str :=
  (headers.find? fun h => Str.eqIgnoreAsciiCase h.1 name).map Prod.snd

/-- `extract_title`; the outer `none` is the panic of a slice. -/
def extractTitle (html : Str) : Option (Option Str) :=
  let lower := html.toAsciiLowercase
  match lower.find "<title".toList with
  | none => some none
  | some start => do
      let afterTag ← lower.sliceFrom start
      match afterTag.find ">".toList with
      | none => return none
      | some gt =>
          let contentStart := start + gt + 1
          let afterStart ← lower.sliceFrom contentStart
          match afterStart.find "</title>".toList with
          | none => return none
          | some endRel =>
              let contentEnd := contentStart + endRel
              -- the offsets are those of the lower case copy
              match html.get contentStart contentEnd with
              | none => return none
              | some slice =>
                  let collapsed := Str.join [' '] slice.splitWhitespace
                  let trimmed := collapsed.trim
                  return if trimmed.isEmpty then none else some trimmed

/-- The offsets were found in the string they are used on. -/
theorem extractTitle_isSome (html : Str) : (extractTitle html).isSome = true := by
  simp only [extractTitle]
  generalize html.toAsciiLowercase = lower
  cases hstart : lower.find "<title".toList with
  | none => rfl
  | some start =>
    obtain ⟨pre, after, hlower, -, rfl⟩ := Str.exists_of_find hstart
    generalize "<title".toList ++ after = afterTag at hlower
    subst hlower
    simp only [Str.sliceFrom_append, Option.bind_eq_bind, Option.bind_some]
    cases hgt : Str.find afterTag ">".toList with
    | none => rfl
    | some gt =>
      obtain ⟨tag, content, rfl, -, rfl⟩ := Str.exists_of_find hgt
      have hslice : Str.sliceFrom (pre.byteLen + tag.byteLen + 1)
          (pre ++ (tag ++ (">".toList ++ content))) = some content := by
        have hlen : pre.byteLen + tag.byteLen + 1
            = pre.byteLen + Str.byteLen (tag ++ ">".toList) := by
          rw [Str.byteLen_append, ← Nat.add_assoc]
          rfl
        rw [hlen, ← List.append_assoc tag, Str.sliceFrom_append_append]
      simp only [hslice, Option.bind_some]
      cases Str.find content "</title>".toList with
      | none => rfl
      | some endRel =>
        simp only
        split <;> rfl

/-- `RENDER_BUDGET`: 120 ms. -/
def renderBudget : Nat := 120 * 1000 * 1000

inductive IndexError (E : Type*) where
  | fetchStatus (code : Nat)
  | missingHost
  | other (e : E)

/-- No content type, or one that says HTML. -/
def isHtml (headers : List (Str × Str)) : Bool :=
  match headerValue headers "content-type".toList with
  | some ct => ct.toAsciiLowercase.contains "text/html".toList
  | none => true

/-- The body as text. -/
def bodyText (body : Bytes) : Str := (fromUtf8 body).getD (fromUtf8Lossy body)

def titleOf (html domain : Str) : Str :=
  ((extractTitle html).get (extractTitle_isSome html)).getD domain

/-- `index_single_url`. A page that is not HTML is no error. -/
def indexSingleUrl (env : PageEnv E) (s : CrawlState) (url : Str) :
    Except (IndexError E) Unit × CrawlState :=
  match env.fetch url with
  | .error e => (.error (.other e), s)
  | .ok resp =>
      if !resp.success then (.error (.fetchStatus resp.code), s)
      else if !isHtml resp.headers then (.ok (), s)
      else
        let body := bodyText resp.body
        match env.urlHost url with
        | .error e => (.error (.other e), s)
        | .ok host =>
            let domain := host.getD []
            if domain.isEmpty then (.error .missingHost, s)
            else
              match processFetchedDocument env.add s url domain (titleOf body domain) body
                "en".toList (env.now url) renderBudget with
              | (.ok (), s) => (.ok (), s)
              | (.error e, s) => (.error (.other e), s)

/-! ## Which pages are added -/

/-- The document of a page that was fetched. -/
def pageDocument (env : PageEnv E) (url domain : Str) (resp : ClientResponse) : IndexDocument :=
  let body := bodyText resp.body
  renderedDocument url domain (titleOf body domain) body "en".toList (env.now url) renderBudget

/-- The page is there, is HTML, has a host, and the engine takes it. -/
def PageAdded (env : PageEnv E) (url : Str) : Prop :=
  ∃ resp domain, env.fetch url = .ok resp ∧ resp.success = true ∧ isHtml resp.headers = true ∧
    env.urlHost url = .ok (some domain) ∧ domain ≠ [] ∧
    env.add (pageDocument env url domain resp) = .ok ()

theorem indexSingleUrl_of_added {env : PageEnv E} {url : Str} (h : PageAdded env url)
    (s : CrawlState) :
    ∃ doc, (indexSingleUrl env s url).2 = ⟨s.recrawl, s.added ++ [doc]⟩ := by
  obtain ⟨resp, domain, hfetch, hsuccess, hhtml, hhost, hne, hadd⟩ := h
  have hempty : domain.isEmpty = false := by simpa using hne
  refine ⟨pageDocument env url domain resp, ?_⟩
  rw [pageDocument] at hadd
  simp only [indexSingleUrl, hfetch, hsuccess, hhtml, hhost, Bool.not_true, Bool.false_eq_true,
    if_false, Option.getD_some, hempty, processFetchedDocument_eq, hadd]
  rfl

theorem indexSingleUrl_of_not_added {env : PageEnv E} {url : Str} (h : ¬ PageAdded env url)
    (s : CrawlState) : (indexSingleUrl env s url).2 = s := by
  rw [indexSingleUrl]
  cases hfetch : env.fetch url with
  | error e => rfl
  | ok resp =>
    cases hsuccess : resp.success with
    | false => simp [hsuccess]
    | true =>
      cases hhtml : isHtml resp.headers with
      | false => simp [hsuccess, hhtml]
      | true =>
        simp only [hsuccess, hhtml, Bool.not_true, Bool.false_eq_true, if_false]
        cases hhost : env.urlHost url with
        | error e => rfl
        | ok host =>
          cases host with
          | none => rfl
          | some domain =>
            by_cases hne : domain = []
            · simp [hne]
            · have hempty : domain.isEmpty = false := by simpa using hne
              simp only [Option.getD_some, hempty, Bool.false_eq_true, if_false,
                processFetchedDocument_eq]
              -- all that is left to go wrong is the engine
              cases hadd : env.add (pageDocument env url domain resp) with
              | ok u =>
                exact absurd ⟨resp, domain, hfetch, hsuccess, hhtml, hhost, hne, hadd⟩ h
              | error e =>
                rw [pageDocument] at hadd
                rw [hadd]

end Gurted.Indexing
