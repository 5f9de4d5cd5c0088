import Gurted.Crawler.Render
import Gurted.Index.Engine

/-!
# The crawl pipeline (`gurtd/src/crawler/pipeline.rs`)
-/

namespace Gurted.Crawler

open Gurted Gurted.Index

variable {E : Type*}

structure ReCrawlItem where
  url : Str
  reason : Option DynamicReason
  deriving DecidableEq, Repr

/-- What a crawl changes besides the engine's own state. -/
structure CrawlState where
  /-- The `DynamicReCrawlQueue`. -/
  recrawl : List ReCrawlItem
  /-- The documents for which `engine.add` returned `Ok`. -/
  added : List IndexDocument
  deriving DecidableEq, Repr

/-- `process_fetched_document_with_cost` with an engine that answers `add`. -/
def processFetchedDocumentWithCost (add : IndexDocument → Except E Unit) (s : CrawlState)
    (url domain title html language : Str) (fetchTime : Int) (renderBudget : Nat)
    (simulatedCost : Option Nat) : Except E Unit × CrawlState :=
  let outcome := renderOnce html ⟨renderBudget, simulatedCost⟩
  let recrawl :=
    if outcome.timedOut then s.recrawl ++ [⟨url, outcome.reason⟩] else s.recrawl
  let doc : IndexDocument :=
    ⟨url, domain, title, outcome.content, fetchTime, language, outcome.renderMode⟩
  match add doc with
  | .ok () => (.ok (), ⟨recrawl, s.added ++ [doc]⟩)
  | .error e => (.error e, ⟨recrawl, s.added⟩)

/-- `process_fetched_document`. -/
def processFetchedDocument (add : IndexDocument → Except E Unit) (s : CrawlState)
    (url domain title html language : Str) (fetchTime : Int) (renderBudget : Nat) :
    Except E Unit × CrawlState :=
  processFetchedDocumentWithCost add s url domain title html language fetchTime renderBudget none

/-- The document of a page that is rendered within its budget. -/
def renderedDocument (url domain title html language : Str) (fetchTime : Int)
    (renderBudget : Nat) : IndexDocument :=
  let outcome := renderOnce html ⟨renderBudget, none⟩
  ⟨url, domain, title, outcome.content, fetchTime, language, outcome.renderMode⟩

/-- A page is handed to the engine and never queued for another render. -/
theorem processFetchedDocument_eq (add : IndexDocument → Except E Unit) (s : CrawlState)
    (url domain title html language : Str) (fetchTime : Int) (renderBudget : Nat) :
    processFetchedDocument add s url domain title html language fetchTime renderBudget =
      let doc := renderedDocument url domain title html language fetchTime renderBudget
      match add doc with
      | .ok () => (.ok (), ⟨s.recrawl, s.added ++ [doc]⟩)
      | .error e => (.error e, s) := by
  simp only [processFetchedDocument, processFetchedDocumentWithCost, renderOnce_timedOut,
    Bool.false_eq_true, if_false]
  rfl

end Gurted.Crawler
