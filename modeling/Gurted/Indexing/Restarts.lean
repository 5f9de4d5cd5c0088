import Gurted.Indexing.Shown

/-!
# The index over restarts (`gurtd/src/services.rs`, `gurt-index/src/tantivy.rs`)

A process opens the index once: in the directory of `GURT_INDEX_DIR`, or in memory if there is
none or it cannot be opened. `found_overRestarts` says which pages the searches of a process
find, after the processes before it.
-/

namespace Gurted.Indexing

open Gurted Gurted.Query Gurted.Index

variable {E D : Type*} [DecidableEq D] {lower : Str → Str}

/-! ## Processes -/

/-- A process up to its end or to now. A crash inside a job is a job whose last calls fail. -/
structure Session (E D : Type*) (lower : Str → Str) where
  /-- `GURT_INDEX_DIR`. -/
  indexDir : Option Str
  /-- The directory of a path in which an index can be opened or created. -/
  opens : Str → Option D
  turns : List (Turn E lower)

/-- Where `INDEX_ENGINE` keeps its index; `none` is the memory. -/
def Session.dir (s : Session E D lower) : Option D :=
  (s.indexDir.map Str.trim).bind fun path => if path.isEmpty then none else s.opens path

/-- The pages committed in each directory. -/
abbrev Disk (D : Type*) := D → List IndexDocument

/-- `open_or_create_in_dir`: the reader starts with what was committed. -/
def openOrCreateInDir (disk : Disk D) (dir : D) : Engine := ⟨[], disk dir, disk dir⟩

/-- `INDEX_ENGINE`. -/
def Session.indexEngine (s : Session E D lower) (disk : Disk D) : Engine :=
  match s.dir with
  | some dir => openOrCreateInDir disk dir
  | none => .new

/-- The engine of a process after its turns. -/
def Session.engine (s : Session E D lower) (disk : Disk D) : Engine :=
  s.turns.foldl Turn.after (s.indexEngine disk)

/-- What a process leaves on disk; pages that wait for a commit are lost. -/
def Session.leaves (s : Session E D lower) (disk : Disk D) : Disk D :=
  match s.dir with
  | some dir => Function.update disk dir (s.engine disk).committed
  | none => disk

/-- The disk after some processes. -/
def diskAfter (past : List (Session E D lower)) : Disk D :=
  past.foldl (fun disk s => s.leaves disk) fun _ => []

/-! ## What is shown -/

/-- The pages a process has committed. -/
def Session.committed (s : Session E D lower) : List IndexDocument :=
  (committedTurns s.turns).flatMap Turn.taken

/-- The pages the processes have committed in the directory. -/
def heldPages (past : List (Session E D lower)) (dir : Option D) : List IndexDocument :=
  match dir with
  | some dir => (past.filter fun s => s.dir = some dir).flatMap Session.committed
  | none => []

/-- The pages a search of the process can find. -/
def Session.shown (past : List (Session E D lower)) (s : Session E D lower) : List IndexDocument :=
  heldPages past s.dir ++ shownPages s.turns

/-! ## An engine that starts with pages -/

/-- The engine with pages that were there before. -/
def onTop (docs : List IndexDocument) (e : Engine) : Engine :=
  ⟨e.queued, docs ++ e.committed, docs ++ e.visible⟩

/-- A turn does not touch them. -/
theorem after_onTop (docs : List IndexDocument) (e : Engine) (turn : Turn E lower) :
    turn.after (onTop docs e) = onTop docs (turn.after e) := by
  cases turn with
  | reload => rfl
  | job job =>
    rw [after_job, after_job]
    cases job.env.commit.isOk <;> cases job.env.refresh.isOk <;>
      simp [onTop, List.append_assoc]

theorem foldl_after_onTop (docs : List IndexDocument) (turns : List (Turn E lower)) (e : Engine) :
    turns.foldl Turn.after (onTop docs e) = onTop docs (turns.foldl Turn.after e) := by
  induction turns generalizing e with
  | nil => rfl
  | cons turn turns ih => rw [List.foldl_cons, List.foldl_cons, after_onTop, ih]

omit [DecidableEq D] in
/-- **The engine of a process**: that of its turns, on top of what the directory had. -/
theorem engine_eq (s : Session E D lower) (disk : Disk D) :
    s.engine disk = onTop ((s.dir.map disk).getD []) (afterTurns s.turns) := by
  have hstart : s.indexEngine disk = onTop ((s.dir.map disk).getD []) .new := by
    rw [Session.indexEngine]
    cases s.dir with
    | none => rfl
    | some dir => simp [openOrCreateInDir, onTop, Engine.new]
  rw [Session.engine, hstart, foldl_after_onTop]
  rfl

/-! ## The disk after some processes -/

theorem heldPages_concat (past : List (Session E D lower)) (s : Session E D lower) (dir : D) :
    heldPages (past ++ [s]) (some dir)
      = heldPages past (some dir) ++ if s.dir = some dir then s.committed else [] := by
  rw [heldPages, heldPages, List.filter_append, List.flatMap_append]
  by_cases hdir : s.dir = some dir
  · simp [hdir]
  · simp [hdir]

/-- **What is on disk** are the pages that processes have committed there. -/
theorem diskAfter_eq (past : List (Session E D lower)) (dir : D) :
    diskAfter past dir = heldPages past (some dir) := by
  induction past using List.reverseRecOn with
  | nil => rfl
  | append_singleton past s ih =>
    have hafter : diskAfter (past ++ [s]) = s.leaves (diskAfter past) := by
      rw [diskAfter, List.foldl_append]
      rfl
    rw [hafter, heldPages_concat, ← ih, Session.leaves]
    cases hdir : s.dir with
    | none => simp
    | some own =>
      have hcommitted : (s.engine (diskAfter past)).committed
          = diskAfter past own ++ s.committed := by
        rw [engine_eq, hdir, onTop, (holds_afterTurns s.turns).committed]
        rfl
      simp only
      by_cases heq : own = dir
      · rw [heq, Function.update_self, if_pos rfl, ← heq]
        exact hcommitted
      · have hother : ¬ some own = some dir := fun h => heq (Option.some.inj h)
        rw [Function.update_of_ne (Ne.symm heq), if_neg hother, List.append_nil]

/-- **What a process shows.** -/
theorem visible_engine (past : List (Session E D lower)) (s : Session E D lower) :
    (s.engine (diskAfter past)).visible = s.shown past := by
  have hdisk : (s.dir.map (diskAfter past)).getD [] = heldPages past s.dir := by
    cases s.dir with
    | none => rfl
    | some dir => exact diskAfter_eq past dir
  rw [engine_eq, onTop, hdisk, (holds_afterTurns s.turns).visible]
  rfl

/-! ## Searches -/

/-- A page that is shown was fetched, by this process or one before. -/
theorem fetchedBy_of_mem_shown {past : List (Session E D lower)} {s : Session E D lower}
    {doc : IndexDocument} (h : doc ∈ s.shown past) :
    ∃ p ∈ past ++ [s], FetchedBy p.turns doc := by
  rcases List.mem_append.mp h with h | h
  · unfold heldPages at h
    split at h
    · obtain ⟨p, hp, hdoc⟩ := List.mem_flatMap.mp h
      have hpast := (List.mem_filter.mp hp).1
      exact ⟨p, List.mem_append_left _ hpast, fetchedBy_of_mem_committed hdoc⟩
    · cases h
  · exact ⟨s, List.mem_append_right _ (List.mem_singleton_self s), fetchedBy_of_mem_shownPages h⟩

/-- **What searches find over restarts.** For every sequence of processes, each with the index
in a directory or in memory, and every query: there is one ranking, best score first, of the
pages that were committed in the directory of the last process by those before it, and of its
own pages that were committed before the last refresh, as far as they have one of the terms; a
job of one of the processes has fetched each of them; and the first `m` pages of a search, of
whatever `size`, go through the ranking without a gap or a repetition, as far as `m * size`
fits a `usize`. -/
theorem found_overRestarts (U : CharTables) {S : Type*} [LinearOrder S]
    (score : List Clause → IndexDocument → S) (past : List (Session E D lower))
    (s : Session E D lower) (query : ParsedQuery) :
    let clauses := shouldClauses (analyzeTerms U query.terms)
    (∀ doc ∈ s.shown past, ∃ p ∈ past ++ [s], FetchedBy p.turns doc) ∧
    ∃ hits : List (SearchHit S),
      hits.Perm (((s.shown past).filter fun doc => clauses.any fun c => c.matches U doc).map
        fun doc => hitOf (score clauses doc, doc)) ∧
      hits.Pairwise (fun a b => b.score ≤ a.score) ∧
      ∀ size m, 0 < size → m * size < 2 ^ 64 →
        ((List.range m).flatMap fun page =>
          (s.engine (diskAfter past)).search U score query (page + 1) size)
            = hits.take (m * size) := by
  intro clauses
  refine ⟨fun doc => fetchedBy_of_mem_shown, ?_⟩
  rw [← visible_engine past s]
  exact exists_ranking U score (s.engine (diskAfter past)) query

end Gurted.Indexing
