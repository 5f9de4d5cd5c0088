import Mathlib.Data.List.Perm.Basic
import Gurted.Std.Str

/-!
# The index engine (`gurt-index/src/lib.rs`, `gurt-index/src/tantivy.rs`)

A `TantivyIndexEngine` under its calls. Of Tantivy the state holds what the calls
can observe: the additions the writer has queued, the documents of the last
commit and those of the last reload. Whether the writer takes a document and
whether a commit or reload succeeds is part of the call.
-/

namespace Gurted.Index

open Gurted

structure IndexDocument where
  url : Str
  domain : Str
  title : Str
  content : Str
  fetchTime : Int
  language : Str
  renderMode : Str
  deriving DecidableEq, Repr

/-! ## Calls -/

structure Engine where
  queued : List IndexDocument
  committed : List IndexDocument
  visible : List IndexDocument
  deriving DecidableEq, Repr

/-- `with_default_schema`. -/
def Engine.new : Engine := ⟨[], [], []⟩

inductive EngineError where
  | writerCommit
  | readerReload
  deriving DecidableEq, Repr

/-- `add`. The answer of `add_document` is dropped, and nothing is deleted. -/
def Engine.add (e : Engine) (doc : IndexDocument) (accepted : Bool) :
    Except EngineError Engine :=
  .ok (if accepted then { e with queued := e.queued ++ [doc] } else e)

/-- `commit`. -/
def Engine.commit (e : Engine) (succeeds : Bool) : Except EngineError Engine :=
  if succeeds then .ok { e with committed := e.committed ++ e.queued, queued := [] }
  else .error .writerCommit

/-- `refresh`. -/
def Engine.refresh (e : Engine) (succeeds : Bool) : Except EngineError Engine :=
  if succeeds then .ok { e with visible := e.committed } else .error .readerReload

/-- A call with the outcome Tantivy gives it. -/
inductive Call where
  | add (doc : IndexDocument) (accepted : Bool)
  | commit (succeeds : Bool)
  | refresh (succeeds : Bool)
  deriving DecidableEq, Repr

def Engine.call (e : Engine) : Call → Except EngineError Engine
  | .add doc accepted => e.add doc accepted
  | .commit succeeds => e.commit succeeds
  | .refresh succeeds => e.refresh succeeds

/-- A sequence of calls; `ok` if every call returned `Ok`. -/
def Engine.run (e : Engine) (calls : List Call) : Except EngineError Engine :=
  calls.foldlM Engine.call e

/-! ## Histories -/

/-- The documents added, in order. -/
def added (calls : List Call) : List IndexDocument :=
  calls.filterMap fun | .add doc _ => some doc | _ => none

/-- Those the writer took. -/
def accepted (calls : List Call) : List IndexDocument :=
  calls.filterMap fun | .add doc true => some doc | _ => none

/-- The last document of each URL. -/
def latest : List IndexDocument → List IndexDocument
  | [] => []
  | doc :: docs => if docs.any (·.url == doc.url) then latest docs else doc :: latest docs

/-- The documents of one URL. -/
def ofUrl (url : Str) (docs : List IndexDocument) : List IndexDocument :=
  docs.filter (·.url == url)

theorem ofUrl_cons (url : Str) (doc : IndexDocument) (docs : List IndexDocument) :
    ofUrl url (doc :: docs) = if doc.url = url then doc :: ofUrl url docs else ofUrl url docs := by
  by_cases h : doc.url = url <;> simp [ofUrl, h]

theorem mem_ofUrl {url : Str} {doc : IndexDocument} {docs : List IndexDocument} :
    doc ∈ ofUrl url docs ↔ doc ∈ docs ∧ doc.url = url := by
  simp [ofUrl]

theorem ofUrl_eq_nil_iff {url : Str} {docs : List IndexDocument} :
    ofUrl url docs = [] ↔ ∀ doc ∈ docs, doc.url ≠ url := by
  simp [ofUrl, List.filter_eq_nil_iff]

/-- **One per URL**: the last one. -/
theorem ofUrl_latest (url : Str) (docs : List IndexDocument) :
    ofUrl url (latest docs) = (ofUrl url docs).getLast?.toList := by
  induction docs with
  | nil => rfl
  | cons doc docs ih =>
    rw [latest, ofUrl_cons]
    split
    · next hlater =>
      rw [ih]
      by_cases hurl : doc.url = url
      · -- a later document has the URL, so this one is not the last
        rw [if_pos hurl]
        obtain ⟨later, hmem, hsame⟩ := List.any_eq_true.mp hlater
        have hof : later ∈ ofUrl url docs :=
          mem_ofUrl.mpr ⟨hmem, (beq_iff_eq.mp hsame).trans hurl⟩
        rw [List.getLast?_cons, List.getLast?_eq_some_getLast (List.ne_nil_of_mem hof)]
        rfl
      · rw [if_neg hurl]
    · next hlast =>
      rw [ofUrl_cons, ih]
      by_cases hurl : doc.url = url
      · have hnone : ofUrl url docs = [] := ofUrl_eq_nil_iff.mpr fun later hmem hsame =>
          hlast (List.any_eq_true.mpr ⟨later, hmem, beq_iff_eq.mpr (hsame.trans hurl.symm)⟩)
        rw [if_pos hurl, if_pos hurl, hnone]
        rfl
      · rw [if_neg hurl, if_neg hurl]

theorem accepted_subset_added (calls : List Call) : accepted calls ⊆ added calls := by
  intro doc hdoc
  obtain ⟨call, hmem, hcall⟩ := List.mem_filterMap.mp hdoc
  refine List.mem_filterMap.mpr ⟨call, hmem, ?_⟩
  cases call with
  | add d a => cases a <;> simp_all
  | commit s => cases hcall
  | refresh s => cases hcall

/-- Two histories of documents are the same up to order if they are the same for
each URL. -/
theorem perm_of_ofUrl {as bs : List IndexDocument} (h : ∀ url, ofUrl url as = ofUrl url bs) :
    as.Perm bs := by
  refine List.perm_iff_count.mpr fun doc => ?_
  have hcount : ∀ docs : List IndexDocument, docs.count doc = (ofUrl doc.url docs).count doc :=
    fun docs => (List.count_filter (by simp)).symm
  rw [hcount as, hcount bs, h]

/-! ## What a search sees -/

/-- A successful call queues, publishes or shows documents; none is lost. -/
theorem published_call {e e' : Engine} {c : Call} (h : e.call c = .ok e') :
    e'.committed ++ e'.queued = e.committed ++ e.queued ++ accepted [c] := by
  cases c with
  | add doc a =>
    cases h
    cases a <;> simp [accepted]
  | commit s =>
    cases s with
    | true => cases h; simp [accepted]
    | false => cases h
  | refresh s =>
    cases s with
    | true => cases h; simp [accepted]
    | false => cases h

theorem published_run {e e' : Engine} {calls : List Call} (h : e.run calls = .ok e') :
    e'.committed ++ e'.queued = e.committed ++ e.queued ++ accepted calls := by
  induction calls generalizing e with
  | nil =>
    cases h
    simp [accepted]
  | cons c calls ih =>
    rw [Engine.run, List.foldlM_cons] at h
    cases hc : e.call c with
    | error err =>
      rw [hc] at h
      cases h
    | ok e₁ =>
      rw [hc] at h
      -- no call takes a document away
      have hcalls : accepted (c :: calls) = accepted [c] ++ accepted calls := by
        rw [accepted, accepted, accepted, ← List.filterMap_append]
        rfl
      rw [ih h, published_call hc, hcalls, List.append_assoc]

/-- After a last commit and refresh, exactly what the writer took is visible. -/
theorem visible_run {e : Engine} {calls : List Call}
    (h : Engine.new.run (calls ++ [.commit true, .refresh true]) = .ok e) :
    e.visible = accepted calls := by
  rw [Engine.run, List.foldlM_append] at h
  cases hc : calls.foldlM Engine.call Engine.new with
  | error err =>
    rw [hc] at h
    cases h
  | ok e₁ =>
    rw [hc] at h
    cases h
    have := published_run hc
    simpa [Engine.new] using this

/-- The writer took exactly one document of every URL added, and it is the last
one added for the URL. -/
def TakenOnce (calls : List Call) : Prop :=
  ∀ doc ∈ latest (added calls), ofUrl doc.url (accepted calls) = [doc]

/-- **When adding replaces.** For every sequence of calls that all returned `Ok`,
with a commit and a refresh at its end: what is visible is one document per URL,
the last one added, if and only if the writer took nothing else. -/
theorem visible_perm_latest_iff {e : Engine} {calls : List Call}
    (h : Engine.new.run (calls ++ [.commit true, .refresh true]) = .ok e) :
    e.visible.Perm (latest (added calls)) ↔ TakenOnce calls := by
  rw [visible_run h]
  constructor
  · intro hperm doc hdoc
    have hof : (ofUrl doc.url (accepted calls)).Perm (ofUrl doc.url (latest (added calls))) :=
      hperm.filter _
    have hlast : doc ∈ ofUrl doc.url (latest (added calls)) := mem_ofUrl.mpr ⟨hdoc, rfl⟩
    rw [ofUrl_latest] at hof hlast
    rw [Option.mem_toList] at hlast
    rw [hlast] at hof
    exact List.perm_singleton.mp hof
  · intro htaken
    refine perm_of_ofUrl fun url => ?_
    cases hlast : (ofUrl url (added calls)).getLast? with
    | none =>
      -- nothing was added for the URL
      have hadded := List.getLast?_eq_none_iff.mp hlast
      rw [ofUrl_latest, hadded]
      exact ofUrl_eq_nil_iff.mpr fun doc hdoc =>
        ofUrl_eq_nil_iff.mp hadded doc (accepted_subset_added calls hdoc)
    | some doc =>
      have hdoc : doc ∈ ofUrl url (latest (added calls)) := by
        rw [ofUrl_latest, hlast]
        simp
      obtain ⟨hmem, rfl⟩ := mem_ofUrl.mp hdoc
      rw [htaken doc hmem, ofUrl_latest, hlast]
      rfl

/-- A page and the same page with another title. -/
def pageVersion (title : Str) : IndexDocument :=
  ⟨"gurt://a.b/".toList, "a.b".toList, title, [], 0, "en".toList, "static".toList⟩

/-- One crawl of a page and of another one, with a commit between them. -/
def twoPages : List Call :=
  [.add (pageVersion ['x']) true, .commit true,
    .add { pageVersion ['z'] with url := "gurt://a.b/z".toList } true]

/-- A search sees the two pages. -/
theorem visible_perm_latest_iff_twoPages :
    [pageVersion ['x'], { pageVersion ['z'] with url := "gurt://a.b/z".toList }].Perm
      (latest (added twoPages)) ∧ TakenOnce twoPages := by
  have hrun : Engine.new.run (twoPages ++ [.commit true, .refresh true])
      = .ok ⟨[], [pageVersion ['x'], { pageVersion ['z'] with url := "gurt://a.b/z".toList }],
          [pageVersion ['x'], { pageVersion ['z'] with url := "gurt://a.b/z".toList }]⟩ := by
    decide
  have hperm : [pageVersion ['x'], { pageVersion ['z'] with url := "gurt://a.b/z".toList }].Perm
      (latest (added twoPages)) := by decide
  exact ⟨hperm, (visible_perm_latest_iff hrun).mp hperm⟩

/-- A crawl and a later one of the same page, all calls `Ok`: both versions are
visible. -/
theorem not_visible_perm_latest_recrawl :
    ∃ e, Engine.new.run ([.add (pageVersion ['x']) true, .commit true, .refresh true,
        .add (pageVersion ['y']) true] ++ [.commit true, .refresh true]) = .ok e ∧
      ¬ e.visible.Perm (latest (added [.add (pageVersion ['x']) true, .commit true, .refresh true,
        .add (pageVersion ['y']) true])) :=
  ⟨⟨[], [pageVersion ['x'], pageVersion ['y']], [pageVersion ['x'], pageVersion ['y']]⟩,
    by decide, fun h => absurd h.length_eq (by decide)⟩

end Gurted.Index
