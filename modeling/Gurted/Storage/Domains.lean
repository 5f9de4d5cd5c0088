import Mathlib.Data.List.Nodup
import Gurted.Std.Str

/-!
# The `domains` table (`gurtd/src/storage/mod.rs`, `gurt-db/migrations`)

The statements of `storage::domains` on the table of the core schema. Each is
one atomic step. What `LOWER` does outside ASCII depends on the database, so it
is a parameter; the unique index on `LOWER(name)` is a field of the table.
-/

namespace Gurted.Storage

open Gurted

/-- The enum type `domain_status`. -/
inductive DomainStatus where
  | pending
  | ready
  | blocked
  | error
  deriving DecidableEq, Repr

/-- `$2::domain_status`; `none` is the error of a text that is no label. -/
def DomainStatus.ofText (s : Str) : Option DomainStatus :=
  if s = "pending".toList then some .pending
  else if s = "ready".toList then some .ready
  else if s = "blocked".toList then some .blocked
  else if s = "error".toList then some .error
  else none

/-- The columns of a row that the statements read. -/
structure DomainRow where
  id : Nat
  name : Str
  submissionSource : Option Str
  submittedAt : Nat
  status : DomainStatus
  deriving DecidableEq, Repr

variable {lower : Str → Str}

structure DomainsTable (lower : Str → Str) where
  rows : List DomainRow
  /-- The next value of the `id` sequence. -/
  nextId : Nat
  /-- `CREATE UNIQUE INDEX idx_domains_name_ci ON domains ((LOWER(name)))`. -/
  uniqueName : (rows.map fun r => lower r.name).Nodup

inductive StorageError where
  | emptyDomain
  | uniqueViolation
  | invalidStatus
  deriving DecidableEq, Repr

/-- An `UPDATE` that leaves the names alone. -/
def DomainsTable.update (t : DomainsTable lower) (f : DomainRow → DomainRow)
    (hf : ∀ r, (f r).name = r.name) : DomainsTable lower where
  rows := t.rows.map f
  nextId := t.nextId
  uniqueName := by
    have h := t.uniqueName
    simpa only [List.map_map, Function.comp_def, hf] using h

/-- The `INSERT` of a name that no row has. -/
def DomainsTable.insert (t : DomainsTable lower) (name : Str) (source : Option Str) (now : Nat)
    (h : lower name ∉ t.rows.map fun r => lower r.name) : DomainsTable lower where
  rows := t.rows ++ [⟨t.nextId, name, source, now, .pending⟩]
  nextId := t.nextId + 1
  uniqueName := by
    have := t.uniqueName
    rw [List.map_append]
    exact (List.nodup_append_comm.mp (List.nodup_cons.mpr ⟨h, this⟩ :
      ([lower name] ++ t.rows.map fun r => lower r.name).Nodup))

/-- `upsert_domain_submission` at time `now`. `ON CONFLICT (name)` covers an equal
name; a name that differs in case only runs into the other index. -/
def upsertDomainSubmission (t : DomainsTable lower) (name : Str) (source : Option Str)
    (now : Nat) : Except StorageError (Nat × DomainsTable lower) :=
  let name := (Str.trim name).toAsciiLowercase
  if name.isEmpty then .error .emptyDomain
  else match t.rows.find? (·.name == name) with
    | some row =>
        .ok (row.id, t.update
          (fun r => if r.name = name then
            { r with submissionSource := source <|> r.submissionSource } else r)
          fun r => by split <;> rfl)
    | none =>
        if h : lower name ∈ t.rows.map fun r => lower r.name then .error .uniqueViolation
        else .ok (t.nextId, t.insert name source now h)

/-- `set_domain_status`; an update that finds no row succeeds too. -/
def setDomainStatus (t : DomainsTable lower) (name status : Str) :
    Except StorageError (DomainsTable lower) :=
  let name := (Str.trim name).toAsciiLowercase
  if name.isEmpty then .ok t
  else match DomainStatus.ofText status with
    | none => .error .invalidStatus
    | some st =>
        .ok (t.update (fun r => if lower r.name = lower name then { r with status := st } else r)
          fun r => by split <;> rfl)

/-- `list_pending_domains`. -/
def listPendingDomains (t : DomainsTable lower) (limit : Int) : List Str :=
  let limit := if limit ≤ 0 then 0 else min limit 10000
  let pending := (t.rows.filter (·.status == .pending)).mergeSort
    fun r s => r.submittedAt ≤ s.submittedAt
  (pending.take limit.toNat).map (·.name)

/-! ## The status of a domain -/

/-- The rows of a domain. -/
def DomainsTable.rowsOf (t : DomainsTable lower) (d : Str) : List DomainRow :=
  t.rows.filter fun r => lower r.name = lower d

/-- The status of a domain, if it has a row. -/
def DomainsTable.statusOf (t : DomainsTable lower) (d : Str) : Option DomainStatus :=
  (t.rowsOf d).head?.map (·.status)

/-- The index allows one row. -/
theorem DomainsTable.rowsOf_length (t : DomainsTable lower) (d : Str) :
    (t.rowsOf d).length ≤ 1 := by
  have hle : ((t.rowsOf d).map fun r => lower r.name).Nodup :=
    t.uniqueName.sublist (List.filter_sublist.map _)
  have hall : ∀ x ∈ (t.rowsOf d).map (fun r => lower r.name), x = lower d := by
    intro x hx
    obtain ⟨r, hr, rfl⟩ := List.mem_map.mp hx
    exact of_decide_eq_true (List.mem_filter.mp hr).2
  generalize t.rowsOf d = rows at hle hall ⊢
  rcases rows with _ | ⟨r, _ | ⟨r₂, rest⟩⟩
  · exact Nat.zero_le _
  · exact Nat.le_refl _
  · exfalso
    have h₁ : lower r.name = lower d := hall _ (by simp)
    have h₂ : lower r₂.name = lower d := hall _ (by simp)
    simp [h₁, h₂] at hle

theorem DomainsTable.statusOf_eq_some_iff {t : DomainsTable lower} {d : Str} {st : DomainStatus} :
    t.statusOf d = some st ↔ ∃ r, t.rowsOf d = [r] ∧ r.status = st := by
  have hlen := t.rowsOf_length d
  rw [statusOf]
  generalize t.rowsOf d = rows at hlen ⊢
  rcases rows with _ | ⟨r, _ | ⟨r₂, rest⟩⟩
  · simp
  · simp
  · simp at hlen

theorem DomainsTable.rowsOf_update (t : DomainsTable lower) (d : Str) {f : DomainRow → DomainRow}
    (hf : ∀ r, (f r).name = r.name) : (t.update f hf).rowsOf d = (t.rowsOf d).map f := by
  simp only [rowsOf, update, List.filter_map, Function.comp_def, hf]

/-- An ASCII name without upper case or white space around it is what the
statements use it as. -/
structure Normal (d : Str) : Prop where
  ne_nil : d ≠ []
  normalized : (Str.trim d).toAsciiLowercase = d

/-- **Submitting.** A submission that succeeds leaves the domain a row, which is
`pending` only if the domain had none. -/
theorem statusOf_upsert {t t' : DomainsTable lower} {d : Str} (hd : Normal d)
    {source : Option Str} {now id : Nat}
    (h : upsertDomainSubmission t d source now = .ok (id, t')) :
    t'.statusOf d = some ((t.statusOf d).getD .pending) := by
  have hne : d.isEmpty = false := by simpa using hd.ne_nil
  simp only [upsertDomainSubmission, hd.normalized, hne, Bool.false_eq_true, if_false] at h
  split at h
  · next row hfind =>
    simp only [Except.ok.injEq, Prod.mk.injEq] at h
    obtain ⟨-, rfl⟩ := h
    have hname : row.name = d := by simpa using List.find?_some hfind
    have hrow : row ∈ t.rowsOf d :=
      List.mem_filter.mpr ⟨List.mem_of_find?_eq_some hfind, by simp [hname]⟩
    obtain ⟨r, rest, hrows⟩ := List.exists_cons_of_ne_nil (List.ne_nil_of_mem hrow)
    rw [DomainsTable.statusOf, DomainsTable.rowsOf_update, DomainsTable.statusOf, hrows]
    simp only [List.map_cons, List.head?_cons, Option.map_some, Option.getD_some]
    split <;> rfl
  · split at h
    · cases h
    · next hnew =>
      simp only [Except.ok.injEq, Prod.mk.injEq] at h
      obtain ⟨-, rfl⟩ := h
      have hnone : t.rowsOf d = [] := by
        refine List.filter_eq_nil_iff.mpr fun r hr hname => hnew ?_
        exact List.mem_map.mpr ⟨r, hr, of_decide_eq_true hname⟩
      have hrows : (t.insert d source now hnew).rowsOf d
          = [⟨t.nextId, d, source, now, .pending⟩] := by
        rw [DomainsTable.rowsOf, DomainsTable.insert, List.filter_append,
          ← DomainsTable.rowsOf, hnone]
        simp
      rw [DomainsTable.statusOf, DomainsTable.statusOf, hrows, hnone]
      rfl

/-- The name the statements use for a domain. -/
def nameOf (d : Str) : Str := (Str.trim d).toAsciiLowercase

/-- **Marking.** Setting a status reaches the row of the name, if there is one. -/
theorem statusOf_setDomainStatus_nameOf {t t' : DomainsTable lower} {d status : Str}
    (hd : nameOf d ≠ []) {st : DomainStatus} (hst : DomainStatus.ofText status = some st)
    (h : setDomainStatus t d status = .ok t') :
    t'.statusOf (nameOf d) = (t.statusOf (nameOf d)).map fun _ => st := by
  have hne : (nameOf d).isEmpty = false := by simpa using hd
  simp only [nameOf] at hne ⊢
  simp only [setDomainStatus, hne, Bool.false_eq_true, if_false, hst, Except.ok.injEq] at h
  subst h
  rw [DomainsTable.statusOf, DomainsTable.rowsOf_update, DomainsTable.statusOf]
  generalize (Str.trim d).toAsciiLowercase = name
  cases hrows : t.rowsOf name with
  | nil => rfl
  | cons r rest =>
    have hr : r ∈ t.rowsOf name := by rw [hrows]; simp
    have hname : lower r.name = lower name := of_decide_eq_true (List.mem_filter.mp hr).2
    simp [hname]

theorem statusOf_setDomainStatus {t t' : DomainsTable lower} {d status : Str} (hd : Normal d)
    {st : DomainStatus} (hst : DomainStatus.ofText status = some st)
    (h : setDomainStatus t d status = .ok t') :
    t'.statusOf d = (t.statusOf d).map fun _ => st := by
  have hname : nameOf d = d := hd.normalized
  have hmark := statusOf_setDomainStatus_nameOf (hname.symm ▸ hd.ne_nil) hst h
  rwa [hname] at hmark

/-- A blank name marks nothing. -/
theorem setDomainStatus_of_blank (t : DomainsTable lower) {d : Str} (hd : nameOf d = [])
    (status : Str) : setDomainStatus t d status = .ok t := by
  rw [nameOf] at hd
  simp [setDomainStatus, hd]

/-- Marking a domain always succeeds. -/
theorem setDomainStatus_ok (t : DomainsTable lower) (d : Str) {status : Str} {st : DomainStatus}
    (hst : DomainStatus.ofText status = some st) : ∃ t', setDomainStatus t d status = .ok t' := by
  simp only [setDomainStatus, hst]
  split
  · exact ⟨t, rfl⟩
  · exact ⟨_, rfl⟩

/-! ## What the statements keep -/

theorem DomainsTable.statusOf_congr {t : DomainsTable lower} {d e : Str} (h : lower d = lower e) :
    t.statusOf d = t.statusOf e := by
  rw [statusOf, statusOf, rowsOf, rowsOf, h]

/-- A domain with a row keeps its status or becomes ready. -/
def Kept (t t' : DomainsTable lower) : Prop :=
  ∀ d st, t.statusOf d = some st → t'.statusOf d = some st ∨ t'.statusOf d = some .ready

theorem Kept.refl (t : DomainsTable lower) : Kept t t := fun _ _ h => .inl h

theorem Kept.trans {t t' t'' : DomainsTable lower} (h : Kept t t') (h' : Kept t' t'') :
    Kept t t'' := by
  intro d st hst
  rcases h d st hst with hst | hst
  · exact h' d st hst
  · exact .inr ((h' d .ready hst).elim id id)

theorem Kept.ready {t t' : DomainsTable lower} (h : Kept t t') {d : Str}
    (hd : t.statusOf d = some .ready) : t'.statusOf d = some .ready :=
  (h d .ready hd).elim id id

theorem Kept.ne_none {t t' : DomainsTable lower} (h : Kept t t') {d : Str}
    (hd : t.statusOf d ≠ none) : t'.statusOf d ≠ none := by
  obtain ⟨st, hst⟩ := Option.ne_none_iff_exists'.mp hd
  rcases h d st hst with h | h <;> simp [h]

/-- An update that keeps a status or makes it ready. -/
theorem kept_update (t : DomainsTable lower) {f : DomainRow → DomainRow}
    (hf : ∀ r, (f r).name = r.name)
    (hstatus : ∀ r, (f r).status = r.status ∨ (f r).status = .ready) :
    Kept t (t.update f hf) := by
  intro d st hst
  rw [DomainsTable.statusOf] at hst ⊢
  rw [DomainsTable.rowsOf_update]
  cases hrows : t.rowsOf d with
  | nil => simp [hrows] at hst
  | cons r rest =>
    rw [hrows] at hst
    cases hst
    rcases hstatus r with h | h <;> simp [h]

theorem kept_insert (t : DomainsTable lower) {name : Str} {source : Option Str} {now : Nat}
    (h : lower name ∉ t.rows.map fun r => lower r.name) : Kept t (t.insert name source now h) := by
  intro d st hst
  refine .inl ?_
  rw [DomainsTable.statusOf] at hst ⊢
  rw [DomainsTable.rowsOf, DomainsTable.insert, List.filter_append, ← DomainsTable.rowsOf]
  cases hrows : t.rowsOf d with
  | nil => simp [hrows] at hst
  | cons r rest =>
    rw [hrows] at hst
    exact hst

theorem kept_upsert {t t' : DomainsTable lower} {d : Str} {source : Option Str} {now id : Nat}
    (h : upsertDomainSubmission t d source now = .ok (id, t')) : Kept t t' := by
  simp only [upsertDomainSubmission] at h
  split at h
  · cases h
  · split at h
    · simp only [Except.ok.injEq, Prod.mk.injEq] at h
      obtain ⟨-, rfl⟩ := h
      refine kept_update t _ fun r => .inl ?_
      split <;> rfl
    · split at h
      · cases h
      · next hnew =>
        simp only [Except.ok.injEq, Prod.mk.injEq] at h
        obtain ⟨-, rfl⟩ := h
        exact kept_insert t hnew

theorem kept_setReady {t t' : DomainsTable lower} {d : Str}
    (h : setDomainStatus t d "ready".toList = .ok t') : Kept t t' := by
  have hready : DomainStatus.ofText "ready".toList = some .ready := by decide
  simp only [setDomainStatus, hready] at h
  split at h
  · cases h
    exact .refl t
  · cases h
    refine kept_update t _ fun r => ?_
    split
    · exact .inr rfl
    · exact .inl rfl

/-- A submission whose statement has run leaves the domain a row, even if it failed. -/
theorem statusOf_ne_none_of_upsert_error {t : DomainsTable lower} {d : Str} (hd : Normal d)
    {source : Option Str} {now : Nat} {e : StorageError}
    (h : upsertDomainSubmission t d source now = .error e) : t.statusOf d ≠ none := by
  have hne : d.isEmpty = false := by simpa using hd.ne_nil
  simp only [upsertDomainSubmission, hd.normalized, hne, Bool.false_eq_true, if_false] at h
  split at h
  · cases h
  · split at h
    · next hmem =>
      -- the other index has the name in another case
      obtain ⟨r, hr, hname⟩ := List.mem_map.mp hmem
      have hof : r ∈ t.rowsOf d := List.mem_filter.mpr ⟨hr, by simp [hname]⟩
      obtain ⟨r', rest, hrows⟩ := List.exists_cons_of_ne_nil (List.ne_nil_of_mem hof)
      simp [DomainsTable.statusOf, hrows]
    · cases h

/-! ## Listing -/

/-- A restart does not list a domain that is ready. -/
theorem not_mem_listPendingDomains {t : DomainsTable lower} {d : Str}
    (h : t.statusOf d = some .ready) (limit : Int) : d ∉ listPendingDomains t limit := by
  obtain ⟨r, hrows, hready⟩ := DomainsTable.statusOf_eq_some_iff.mp h
  intro hmem
  obtain ⟨row, hrow, hname⟩ := List.mem_map.mp hmem
  have hpending := List.mem_filter.mp (List.mem_mergeSort.mp (List.mem_of_mem_take hrow))
  have hof : row ∈ t.rowsOf d := List.mem_filter.mpr ⟨hpending.1, by simp [hname]⟩
  rw [hrows, List.mem_singleton] at hof
  rw [hof, hready] at hpending
  exact absurd hpending.2 (by decide)

/-- The pending rows. -/
def DomainsTable.pending (t : DomainsTable lower) : List DomainRow :=
  t.rows.filter (·.status == .pending)

/-- A listing that is large enough lists every pending domain, under the name of its row. -/
theorem exists_mem_listPendingDomains {t : DomainsTable lower} {d : Str}
    (h : t.statusOf d = some .pending) {limit : Int} (hlimit : t.pending.length ≤ limit)
    (hcap : t.pending.length ≤ 10000) :
    ∃ r ∈ t.rows, lower r.name = lower d ∧ r.name ∈ listPendingDomains t limit := by
  obtain ⟨r, hrows, hpending⟩ := DomainsTable.statusOf_eq_some_iff.mp h
  have hof : r ∈ t.rowsOf d := by rw [hrows]; exact List.mem_singleton_self r
  obtain ⟨hr, hname⟩ := List.mem_filter.mp hof
  refine ⟨r, hr, of_decide_eq_true hname, List.mem_map_of_mem ?_⟩
  have hmem : r ∈ t.pending := List.mem_filter.mpr ⟨hr, by simp [hpending]⟩
  have hpos : 0 < t.pending.length := List.length_pos_of_mem hmem
  rw [List.take_of_length_le]
  · exact List.mem_mergeSort.mpr hmem
  · rw [List.length_mergeSort, ← DomainsTable.pending, if_neg (by omega)]
    omega

end Gurted.Storage
