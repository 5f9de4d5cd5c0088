import Gurted.Lib.Rank
import Gurted.Storage.OnePool

/-!
# Calls of a `Db` come to an end

A call takes at most five steps, and it waits only for a call that can go on: the one that
holds the cell connects or migrates and waits for nothing.
-/

namespace Gurted.Storage

open Gurted Gurted.Lib

/-- A call, the database or the migrator goes on; no call comes in and none is dropped. -/
def DbStep.Own : DbStep → Prop
  | .move _ | .connect _ _ _ | .migrate _ _ => True
  | .call _ | .drop _ => False

/-- The steps a call takes at most from a phase on. -/
def DbPhase.rank : DbPhase → Nat
  | .connecting => 5
  | .setting _ | .entering => 4
  | .looking | .filling => 3
  | .ensuring _ => 2
  | .migrating _ => 1
  | .returned _ | .dropped => 0

/-- The call has returned or was dropped. -/
def DbPhase.isOver : DbPhase → Bool
  | .returned _ | .dropped => true
  | _ => false

def Db.rank (s : Db) : Nat := (s.calls.map fun c => c.phase.rank).sum

/-- What is left of a call. -/
def Db.rankOf (s : Db) (i : Nat) : Nat := (s.calls[i]?).elim 0 fun c => c.phase.rank

/-- The call that takes a step. -/
def DbStep.index : DbStep → Option Nat
  | .move i | .connect i _ _ | .migrate i _ | .drop i => some i
  | .call _ => none

theorem rank_ok (kind : DbCallKind) (p : PoolId) : (kind.ok p).rank = 0 := by
  cases kind <;> rfl

theorem rank_withPool (cfg : DbSettings) (kind : DbCallKind) (p : PoolId) :
    (cfg.withPool kind p).rank ≤ 2 := by
  rw [DbSettings.withPool]
  split
  · exact Nat.le_refl 2
  · rw [rank_ok]
    omega

/-- A call goes to a phase of less rank, and the others stay where they are. -/
def Db.Advances (s : Db) (i : Nat) (s' : Db) : Prop :=
  ∃ c phase, s.calls[i]? = some c ∧ s'.calls = s.calls.set i { c with phase := phase } ∧
    phase.rank < c.phase.rank

/-- **Every own step** brings its call nearer to its end. -/
theorem Db.advances {cfg : DbSettings} {s s' : Db} {a : DbStep} (hown : a.Own)
    (hstep : s.step cfg a = some s') : ∃ i, a.index = some i ∧ s.Advances i s' := by
  cases Db.steps_of_step hstep with
  | call => cases hown
  | set hi hphase =>
    refine ⟨_, rfl, _, _, hi, rfl, ?_⟩
    rw [hphase]
    split <;> simp [DbPhase.rank]
  | look hi hphase => exact ⟨_, rfl, _, _, hi, rfl, by simp [hphase, DbPhase.rank]⟩
  | lookNone hi hphase => exact ⟨_, rfl, _, _, hi, rfl, by simp [hphase, DbPhase.rank]⟩
  | enter hi hphase =>
    refine ⟨_, rfl, _, _, hi, rfl, Nat.lt_of_le_of_lt (rank_withPool ..) ?_⟩
    rw [hphase]
    decide
  | fill hi hphase => exact ⟨_, rfl, _, _, hi, rfl, by simp [hphase, DbPhase.rank]⟩
  | migrated hi hphase =>
    exact ⟨_, rfl, _, _, hi, rfl, by rw [rank_ok, hphase]; exact Nat.zero_lt_succ _⟩
  | migrate hi hphase => exact ⟨_, rfl, _, _, hi, rfl, by simp [hphase, DbPhase.rank]⟩
  | connected hi hphase => exact ⟨_, rfl, _, _, hi, rfl, by simp [hphase, DbPhase.rank]⟩
  | notConnected hi hphase => exact ⟨_, rfl, _, _, hi, rfl, by simp [hphase, DbPhase.rank]⟩
  | filled hi hphase =>
    refine ⟨_, rfl, _, _, hi, rfl, Nat.lt_of_le_of_lt (rank_withPool ..) ?_⟩
    rw [hphase]
    decide
  | notFilled hi hphase => exact ⟨_, rfl, _, _, hi, rfl, by simp [hphase, DbPhase.rank]⟩
  | migrationDone hi hphase =>
    exact ⟨_, rfl, _, _, hi, rfl, by rw [rank_ok, hphase]; exact Nat.zero_lt_succ _⟩
  | migrationFailed hi hphase => exact ⟨_, rfl, _, _, hi, rfl, by simp [hphase, DbPhase.rank]⟩
  | dropFilling => cases hown
  | dropMigrating => cases hown
  | drop => cases hown

section Advances
variable {s s' : Db} {i : Nat} (h : s.Advances i s')
include h

theorem Db.Advances.rank_lt : s'.rank < s.rank := by
  obtain ⟨c, phase, hi, hcalls, hlt⟩ := h
  have hsum := sum_map_set (fun c : DbCall => c.phase.rank) hi { c with phase := phase }
  simp only at hsum
  rw [Db.rank, Db.rank, hcalls]
  omega

theorem Db.Advances.rankOf_lt : s'.rankOf i < s.rankOf i := by
  obtain ⟨c, phase, hi, hcalls, hlt⟩ := h
  have hset : s'.calls[i]? = some { c with phase := phase } := by
    obtain ⟨hlen, -⟩ := List.getElem?_eq_some_iff.mp hi
    rw [hcalls]
    exact List.getElem?_set_self hlen
  rw [Db.rankOf, Db.rankOf, hi, hset]
  exact hlt

theorem Db.Advances.rankOf_ne {k : Nat} (hne : i ≠ k) : s'.rankOf k = s.rankOf k := by
  obtain ⟨c, phase, -, hcalls, -⟩ := h
  rw [Db.rankOf, Db.rankOf, hcalls, List.getElem?_set_ne hne]

end Advances

/-- A step of the call counts, and no other step touches it. -/
theorem Db.rankOf_step {cfg : DbSettings} {s s' : Db} {a : DbStep} (hown : a.Own)
    (hstep : s.step cfg a = some s') (k : Nat) :
    s'.rankOf k + (if a.index == some k then 1 else 0) ≤ s.rankOf k := by
  obtain ⟨i, hindex, hadvances⟩ := Db.advances hown hstep
  rw [hindex]
  by_cases hsame : i = k
  · subst hsame
    have hlt := hadvances.rankOf_lt
    simp only [beq_self_eq_true, if_true]
    omega
  · rw [hadvances.rankOf_ne hsame]
    simp [hsame]

/-! ## Waiting -/

/-- No step of its own is left. -/
def Db.Stopped (cfg : DbSettings) (s : Db) : Prop := ∀ a, DbStep.Own a → s.step cfg a = none

section Stopped
variable {cfg : DbSettings} {s : Db} {i : Nat} {c : DbCall}

theorem Db.Stopped.move (h : s.Stopped cfg) (hi : s.calls[i]? = some c) :
    s.move cfg i c = none := by
  have hstep := h (.move i) trivial
  simpa [Db.step, hi] using hstep

/-- Whatever its attempts come to, connecting ends. -/
theorem Db.Stopped.connect (h : s.Stopped cfg) (hi : s.calls[i]? = some c) :
    ∃ result, s.connect cfg i c result = none := by
  have hstep := h (.connect i (fun _ => firstOfRange) fun _ => .ok ()) trivial
  obtain ⟨result, slept, hout, -⟩ :=
    tryConnectWithRetry_eq_some cfg.toDbConfig (fun _ => firstOfRange) fun _ => .ok ()
  refine ⟨result, ?_⟩
  simpa [Db.step, hi, hout] using hstep

/-- The call that connects for the cell can go on. -/
theorem Db.Stopped.not_filling (h : s.Stopped cfg) (hi : s.calls[i]? = some c) :
    c.phase ≠ .filling := by
  intro hphase
  obtain ⟨result, hstep⟩ := h.connect hi
  rw [Db.connect.eq_def, hphase] at hstep
  cases result <;> cases hstep

theorem Db.Stopped.not_migrating (h : s.Stopped cfg) (hi : s.calls[i]? = some c) (p : PoolId) :
    c.phase ≠ .migrating p := by
  intro hphase
  have hstep := h (.migrate i (.ok ())) trivial
  simp [Db.step, hi, Db.migrate, hphase] at hstep

/-- So neither cell is busy. -/
theorem Db.Stopped.not_busy (h : s.Stopped cfg) (hinv : s.Inv cfg) :
    s.pool ≠ .busy ∧ s.migrated ≠ .busy := by
  constructor
  · intro hbusy
    have hheld := hinv.poolHeld
    rw [hbusy] at hheld
    obtain ⟨c, hc, hfills⟩ := hheld.exists_holder
    obtain ⟨i, hi⟩ := List.getElem?_of_mem hc
    exact h.not_filling hi (beq_iff_eq.mp hfills)
  · intro hbusy
    have hheld := hinv.migratedHeld
    rw [hbusy] at hheld
    obtain ⟨c, hc, hmigrates⟩ := hheld.exists_holder
    obtain ⟨i, hi⟩ := List.getElem?_of_mem hc
    rw [DbCall.migrates] at hmigrates
    split at hmigrates
    · next p hphase => exact h.not_migrating hi p hphase
    · cases hmigrates

/-- **Nobody is left waiting.** -/
theorem Db.Stopped.isOver (h : s.Stopped cfg) (hinv : s.Inv cfg) (hi : s.calls[i]? = some c) :
    c.phase.isOver = true := by
  obtain ⟨hpool, hmigrated⟩ := h.not_busy hinv
  have hmove := h.move hi
  rw [Db.move.eq_def] at hmove
  cases hphase : c.phase with
  | connecting =>
    obtain ⟨result, hstep⟩ := h.connect hi
    rw [Db.connect.eq_def, hphase] at hstep
    cases result <;> cases hstep
  | setting p =>
    rw [hphase] at hmove
    cases hmove
  | entering =>
    rw [hphase] at hmove
    cases hcell : s.pool with
    | busy => exact absurd hcell hpool
    | empty => simp [hcell, OnceCell.get?, OnceCell.take] at hmove
    | full p => simp [hcell, OnceCell.get?] at hmove
  | filling => exact absurd hphase (h.not_filling hi)
  | looking =>
    rw [hphase] at hmove
    simp only at hmove
    split at hmove <;> cases hmove
  | ensuring p =>
    rw [hphase] at hmove
    cases hcell : s.migrated with
    | busy => exact absurd hcell hmigrated
    | empty => simp [hcell, OnceCell.get?, OnceCell.take] at hmove
    | full u => simp [hcell, OnceCell.get?] at hmove
  | migrating p => exact absurd hphase (h.not_migrating hi p)
  | returned result => rfl
  | dropped => rfl

end Stopped

theorem rank_le_five (phase : DbPhase) : phase.rank ≤ 5 := by
  cases phase <;> simp [DbPhase.rank]

theorem rankOf_le_five (s : Db) (i : Nat) : s.rankOf i ≤ 5 := by
  rw [Db.rankOf]
  cases s.calls[i]? with
  | none => exact Nat.zero_le 5
  | some c => exact rank_le_five c.phase

/-- **Every call returns.** From any state that calls can lead to, each call takes at most
five steps, and so all of them five times their number, whatever connecting and migrating come
to; and where they stop, each has returned or was dropped. -/
theorem db_calls_return {cfg : DbSettings} {before after : List DbStep} {s₀ s : Db}
    (h₀ : (db cfg).Run before s₀) (h : (Lts.ofStep s₀ (Db.step cfg)).Run after s)
    (hown : ∀ a ∈ after, a.Own) :
    (∀ i, after.countP (fun a => a.index == some i) ≤ 5) ∧
      after.length ≤ 5 * s₀.calls.length ∧
      (s.Stopped cfg → ∀ c ∈ s.calls, c.phase.isOver = true) := by
  have hinv₀ := h₀.invariant (inductive_dbInv cfg) fun _ _ => trivial
  have hinv := (h.invariant (inductive_extends hinv₀) fun _ _ => trivial).1
  refine ⟨fun i => ?_, ?_, fun hstop c hc => ?_⟩
  · have hrank := h.countP_add_rank_le (fun s => s.rankOf i) (fun a => a.index == some i) (n := 5)
      (fun _ _ _ hown hstep => Db.rankOf_step hown hstep i) (fun s _ => rankOf_le_five s i) hown
    omega
  · have hrank := h.length_add_rank_le Db.rank (n := s₀.rank)
      (fun _ _ _ hown hstep => (Db.advances hown hstep).elim fun _ hi => hi.2.rank_lt)
      (fun s hs => by cases hs; exact Nat.le_refl _) hown
    have hbound : s₀.rank ≤ 5 * s₀.calls.length :=
      sum_map_le (fun c : DbCall => c.phase.rank) fun c _ => rank_le_five c.phase
    omega
  · obtain ⟨i, hi⟩ := List.getElem?_of_mem hc
    exact hstop.isOver hinv hi

theorem db_calls_return_two :
    (∀ i, raceEnd.countP (fun a => a.index == some i) ≤ 5) ∧
      raceEnd.length ≤ 5 * raceMiddle.calls.length ∧
      (raceLast.Stopped raceSettings → ∀ c ∈ raceLast.calls, c.phase.isOver = true) :=
  db_calls_return raceMiddle_run raceLast_run (by
    intro a ha
    simp only [raceEnd, List.mem_cons, List.not_mem_nil, or_false] at ha
    rcases ha with rfl | rfl | rfl | rfl <;> trivial)

end Gurted.Storage
