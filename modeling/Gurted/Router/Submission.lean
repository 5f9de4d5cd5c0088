import Gurted.Lib.Lts
import Gurted.Storage.Domains

/-!
# Submitting a domain (`handle_add_site` of `gurtd/src/router/api.rs`)

An accepted submission starts two tasks that nothing orders: one inserts the row
of the domain, the other is the worker's `process_domain`, which marks the domain
ready at its end. `oneReadyRow_iff` says which orders of their statements, on which
tables, leave the domain ready.
-/

namespace Gurted.Router

open Gurted Gurted.Lib Gurted.Storage

/-! ## Accepted domains -/

/-- `is_valid_domain`. -/
def isValidDomain (s : Str) : Bool :=
  if s.isEmpty || 255 < s.byteLen then false
  else s.all fun c => c.isLower || c.isDigit || c == '-' || c == '.'

theorem isValidDomain_char {c : Char}
    (h : (c.isLower || c.isDigit || c == '-' || c == '.') = true) :
    Str.isWhitespace c = false ∧ c.toLower = c := by
  have hval : 45 ≤ c.toNat ∧ c.toNat ≤ 122 ∧ ¬ (65 ≤ c.toNat ∧ c.toNat ≤ 90) := by
    simp only [Bool.or_eq_true, beq_iff_eq] at h
    rcases h with ((h | h) | rfl) | rfl
    · have hrange := (Str.isLower_iff c).mp h
      omega
    · have hrange : 48 ≤ c.toNat ∧ c.toNat ≤ 57 := Char.isDigit_iff_toNat.mp h
      omega
    · decide
    · decide
  refine ⟨?_, ?_⟩
  · simp only [Str.isWhitespace, Bool.or_eq_false_iff, Bool.and_eq_false_iff,
      decide_eq_false_iff_not, beq_eq_false_iff_ne]
    omega
  · exact Str.toLower_of_not_upper hval.2.2

/-- The statements use an accepted domain as it is. -/
theorem normal_of_isValidDomain {d : Str} (h : isValidDomain d = true) : Normal d := by
  rw [isValidDomain] at h
  split at h
  · cases h
  · next hsize =>
    have hchar := fun c hc => isValidDomain_char (List.all_eq_true.mp h c hc)
    refine ⟨?_, ?_⟩
    · rintro rfl
      exact hsize rfl
    · rw [Str.trim_of_noWs fun c hc => (hchar c hc).1, Str.toAsciiLowercase]
      exact (List.map_congr_left fun c hc => (hchar c hc).2).trans (List.map_id d)

/-! ## The two tasks -/

/-- Where the worker's `process_domain` is. -/
inductive WorkerPhase where
  | crawling
  | marking
  | finished
  deriving DecidableEq, Repr

structure SubmissionState (lower : Str → Str) where
  table : DomainsTable lower
  upserted : Bool
  worker : WorkerPhase

inductive SubmissionAction where
  | upsert (now : Nat)
  | crawl
  | markReady
  deriving DecidableEq, Repr

variable {lower : Str → Str} {d : Str} {t₀ : DomainsTable lower}

/-- The statements succeed: a step that runs one that fails is no step. -/
def SubmissionState.step (d : Str) (s : SubmissionState lower) :
    SubmissionAction → Option (SubmissionState lower)
  | .upsert now =>
      if s.upserted then none
      else match upsertDomainSubmission s.table d (some "api".toList) now with
        | .ok (_, table) => some { s with table := table, upserted := true }
        | .error _ => none
  | .crawl => if s.worker = .crawling then some { s with worker := .marking } else none
  | .markReady =>
      if s.worker = .marking then
        match setDomainStatus s.table d "ready".toList with
        | .ok table => some { s with table := table, worker := .finished }
        | .error _ => none
      else none

/-- The two tasks of one submission on a table. -/
def submission (d : Str) (t₀ : DomainsTable lower) : Lts (SubmissionState lower) SubmissionAction :=
  .ofStep ⟨t₀, false, .crawling⟩ (SubmissionState.step d)

/-- Both tasks have finished. -/
def SubmissionState.Finished (s : SubmissionState lower) : Prop :=
  s.upserted = true ∧ s.worker = .finished

/-- The domain has one row and it is ready. -/
def OneReadyRow (t : DomainsTable lower) (d : Str) : Prop :=
  ∃ r, t.rowsOf d = [r] ∧ r.status = .ready

/-- The row was inserted before the domain was marked. -/
def UpsertFirst (tr : List SubmissionAction) : Prop :=
  ∃ pre post, tr = pre ++ .markReady :: post ∧ ∃ now, .upsert now ∈ pre

theorem upsertFirst_append {tr : List SubmissionAction} {a : SubmissionAction} :
    UpsertFirst (tr ++ [a]) ↔ UpsertFirst tr ∨ (a = .markReady ∧ ∃ now, .upsert now ∈ tr) := by
  constructor
  · intro h
    obtain ⟨pre, post, htr, now, hmem⟩ := h
    rcases List.eq_nil_or_concat post with rfl | ⟨post', b, rfl⟩
    · obtain ⟨rfl, hlast⟩ := List.append_inj' htr rfl
      exact .inr ⟨(List.cons.inj hlast).1, now, hmem⟩
    · rw [List.concat_eq_append, ← List.cons_append, ← List.append_assoc] at htr
      exact .inl ⟨pre, post', (List.append_inj' htr rfl).1, now, hmem⟩
  · rintro (⟨pre, post, rfl, now, hmem⟩ | ⟨rfl, now, hmem⟩)
    · exact ⟨pre, post ++ [a], by simp, now, hmem⟩
    · exact ⟨tr, [], rfl, now, hmem⟩

theorem UpsertFirst.upsert {tr : List SubmissionAction} (h : UpsertFirst tr) :
    ∃ now, .upsert now ∈ tr := by
  obtain ⟨pre, post, rfl, now, hmem⟩ := h
  exact ⟨now, List.mem_append_left _ hmem⟩

/-- The status of the domain at every moment, from the one it had. -/
structure SubmissionInv (d : Str) (t₀ : DomainsTable lower) (tr : List SubmissionAction)
    (s : SubmissionState lower) : Prop where
  upserted : s.upserted = true ↔ ∃ now, .upsert now ∈ tr
  unmarked : s.worker ≠ .finished → .markReady ∉ tr
  before : s.worker ≠ .finished →
    s.table.statusOf d = if s.upserted then some ((t₀.statusOf d).getD .pending)
      else t₀.statusOf d
  upsertFirst : s.worker = .finished → UpsertFirst tr → s.table.statusOf d = some .ready
  markFirst : s.worker = .finished → ¬ UpsertFirst tr →
    s.table.statusOf d = if s.upserted then
        some (((t₀.statusOf d).map fun _ => .ready).getD .pending)
      else (t₀.statusOf d).map fun _ => .ready

section Steps
variable {tr : List SubmissionAction} {s s' : SubmissionState lower}

/-- The row is inserted, or is there already. -/
theorem SubmissionInv.upsert (hd : Normal d) (h : SubmissionInv d t₀ tr s) {now : Nat}
    (hstep : s.step d (.upsert now) = some s') : SubmissionInv d t₀ (tr ++ [.upsert now]) s' := by
  simp only [SubmissionState.step] at hstep
  split at hstep
  · cases hstep
  · next hfresh =>
    have hfresh : s.upserted = false := by simpa using hfresh
    split at hstep
    · next id table hupsert =>
      cases hstep
      have hstatus := statusOf_upsert hd hupsert
      have hfirst : UpsertFirst (tr ++ [.upsert now]) ↔ UpsertFirst tr := by
        rw [upsertFirst_append]
        exact or_iff_left fun hmark => by cases hmark.1
      have hnot : ¬ UpsertFirst tr := fun hup => by
        rw [h.upserted.mpr hup.upsert] at hfresh
        cases hfresh
      refine ⟨iff_of_true rfl ⟨now, by simp⟩, fun hw => ?_, fun hw => ?_,
        fun _ hup => absurd (hfirst.mp hup) hnot, fun hw _ => ?_⟩
      · simpa using h.unmarked hw
      · have hbefore := h.before hw
        rw [hfresh, if_neg Bool.false_ne_true] at hbefore
        rw [hstatus, hbefore, if_pos rfl]
      · have hafter := h.markFirst hw hnot
        rw [hfresh, if_neg Bool.false_ne_true] at hafter
        rw [hstatus, hafter, if_pos rfl]
    · cases hstep

/-- The crawl itself leaves the table alone. -/
theorem SubmissionInv.crawl (h : SubmissionInv d t₀ tr s)
    (hstep : s.step d .crawl = some s') : SubmissionInv d t₀ (tr ++ [.crawl]) s' := by
  simp only [SubmissionState.step] at hstep
  split at hstep
  · next hw =>
    cases hstep
    have hne : s.worker ≠ .finished := by rw [hw]; simp
    exact ⟨by simpa using h.upserted, fun _ => by simpa using h.unmarked hne,
      fun _ => h.before hne, fun hfin => absurd hfin (by simp), fun hfin => absurd hfin (by simp)⟩
  · cases hstep

/-- The row that is there by now is marked. -/
theorem SubmissionInv.markReady (hd : Normal d) (h : SubmissionInv d t₀ tr s)
    (hstep : s.step d .markReady = some s') : SubmissionInv d t₀ (tr ++ [.markReady]) s' := by
  simp only [SubmissionState.step] at hstep
  split at hstep
  · next hw =>
    have hne : s.worker ≠ .finished := by rw [hw]; simp
    split at hstep
    · next table hset =>
      cases hstep
      have hready : DomainStatus.ofText "ready".toList = some .ready := by decide
      have hstatus := statusOf_setDomainStatus hd hready hset
      rw [h.before hne] at hstatus
      have hfirst : UpsertFirst (tr ++ [.markReady]) ↔ s.upserted = true := by
        rw [upsertFirst_append, h.upserted]
        exact ⟨fun hup => hup.elim UpsertFirst.upsert And.right, fun hup => .inr ⟨rfl, hup⟩⟩
      refine ⟨by simpa using h.upserted, fun hfin => absurd rfl hfin,
        fun hfin => absurd rfl hfin, fun _ hup => ?_, fun _ hup => ?_⟩
      · rw [hstatus, if_pos (hfirst.mp hup)]
        rfl
      · have hnot := fun hu => hup (hfirst.mpr hu)
        rw [if_neg hnot] at hstatus
        rw [if_neg hnot]
        exact hstatus
    · cases hstep
  · cases hstep

end Steps

theorem inductive_submissionInv (hd : Normal d) :
    (submission d t₀).Inductive (fun _ => True) (SubmissionInv d t₀) where
  start := by
    rintro _ rfl
    exact ⟨by simp, by simp, fun _ => rfl, fun h => absurd h (by simp), fun h => absurd h (by simp)⟩
  next := by
    intro tr s a s' _ h hstep
    cases a with
    | upsert now => exact h.upsert hd hstep
    | crawl => exact h.crawl hstep
    | markReady => exact h.markReady hd hstep

/-- **When a submission ends ready.** For every accepted domain, every table and
every complete interleaving of the two tasks: the domain has one row and it is
ready exactly if the domain had a row before or its row was inserted first. -/
theorem oneReadyRow_iff (hvalid : isValidDomain d = true) {tr : List SubmissionAction}
    {s : SubmissionState lower} (h : (submission d t₀).Run tr s) (hfin : s.Finished) :
    OneReadyRow s.table d ↔ t₀.statusOf d ≠ none ∨ UpsertFirst tr := by
  have hinv := h.invariant (inductive_submissionInv (normal_of_isValidDomain hvalid))
    fun _ _ => trivial
  rw [OneReadyRow, ← DomainsTable.statusOf_eq_some_iff]
  by_cases hup : UpsertFirst tr
  · exact iff_of_true (hinv.upsertFirst hfin.2 hup) (.inr hup)
  · rw [hinv.markFirst hfin.2 hup, if_pos hfin.1, or_iff_left hup]
    cases t₀.statusOf d <;> simp

/-- A table without rows. -/
def emptyTable : DomainsTable Str.toAsciiLowercase := ⟨[], 1, List.nodup_nil⟩

/-- A new domain whose row is there before the crawl ends. -/
theorem oneReadyRow_iff_new :
    ∃ s, (submission "a.b".toList emptyTable).Run [.upsert 0, .crawl, .markReady] s ∧
      (OneReadyRow s.table "a.b".toList ↔
        emptyTable.statusOf "a.b".toList ≠ none ∨
          UpsertFirst [.upsert 0, .crawl, .markReady]) :=
  have hrun : (submission "a.b".toList emptyTable).Run [.upsert 0, .crawl, .markReady] _ :=
    Lts.run_of_foldlM rfl
  ⟨_, hrun, oneReadyRow_iff (by decide) hrun ⟨rfl, rfl⟩⟩

/-- A new domain whose row comes after the mark: it stays pending. -/
theorem not_oneReadyRow_lateUpsert :
    isValidDomain "a.b".toList = true ∧
      ∃ s, (submission "a.b".toList emptyTable).Run [.crawl, .markReady, .upsert 0] s ∧
        s.Finished ∧ ¬ OneReadyRow s.table "a.b".toList := by
  refine ⟨by decide, _, Lts.run_of_foldlM rfl, ⟨rfl, rfl⟩, ?_⟩
  intro h
  obtain ⟨r, hrows, hready⟩ := h
  have hpending : [(⟨1, "a.b".toList, some "api".toList, 0, .pending⟩ : DomainRow)] = [r] := hrows
  rw [← (List.cons.inj hpending).1] at hready
  cases hready

end Gurted.Router
