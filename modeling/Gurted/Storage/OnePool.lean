import Gurted.Storage.Lifecycle

/-!
# One pool for all calls

What a call has come to says what the cells hold (`DbPhase.Fits`), and the cells never lose
what they hold. So all calls of a `Db` come to one pool, migrated once.
-/

namespace Gurted.Storage

open Gurted Gurted.Lib

/-! ## What holds in every state -/

/-- What a phase says about the cells. -/
structure DbPhase.Fits (cfg : DbSettings) (pool : OnceCell PoolId) (migrated : OnceCell Unit)
    (phase : DbPhase) : Prop where
  looking : phase = .looking → cfg.migrateOnStart = true
  ensuring : ∀ p, phase = .ensuring p → pool = .full p ∧ cfg.migrateOnStart = true
  migrating : ∀ p, phase = .migrating p → pool = .full p ∧ cfg.migrateOnStart = true
  returned : ∀ p, phase = .returned (.ok (some p)) →
    pool = .full p ∧ (cfg.migrateOnStart = true → migrated = .full ())

theorem DbPhase.Fits.mono {cfg : DbSettings} {pool pool' : OnceCell PoolId}
    {migrated migrated' : OnceCell Unit} {phase : DbPhase} (h : phase.Fits cfg pool migrated)
    (hpool : pool.Extends pool') (hmigrated : migrated.Extends migrated') :
    phase.Fits cfg pool' migrated' where
  looking := h.looking
  ensuring p hphase := ⟨hpool p (h.ensuring p hphase).1, (h.ensuring p hphase).2⟩
  migrating p hphase := ⟨hpool p (h.migrating p hphase).1, (h.migrating p hphase).2⟩
  returned p hphase := ⟨hpool p (h.returned p hphase).1,
    fun hon => hmigrated () ((h.returned p hphase).2 hon)⟩

/-- The runs of the migrator: all on the pool of the cell, and the last one alone may have
succeeded. -/
structure Ran (cfg : DbSettings) (pool : OnceCell PoolId) (migrated : OnceCell Unit)
    (migrations : List (PoolId × Bool)) : Prop where
  pool : ∀ m ∈ migrations, pool = .full m.1
  failed : migrated ≠ .full () → ∀ m ∈ migrations, m.2 = false
  done : migrated = .full () →
    ∃ fails p, migrations = fails ++ [(p, true)] ∧ ∀ m ∈ fails, m.2 = false
  enabled : migrations ≠ [] → cfg.migrateOnStart = true

structure Db.Inv (cfg : DbSettings) (s : Db) : Prop where
  poolHeld : s.pool.Held DbCall.fills s.calls
  migratedHeld : s.migrated.Held DbCall.migrates s.calls
  fits : ∀ c ∈ s.calls, c.phase.Fits cfg s.pool s.migrated
  ran : Ran cfg s.pool s.migrated s.migrations

section Ran
variable {cfg : DbSettings} {pool pool' : OnceCell PoolId} {migrated : OnceCell Unit}
  {migrations : List (PoolId × Bool)}

theorem Ran.mono (h : Ran cfg pool migrated migrations) (hpool : pool.Extends pool') :
    Ran cfg pool' migrated migrations :=
  ⟨fun m hm => hpool m.1 (h.pool m hm), h.failed, h.done, h.enabled⟩

/-- The cell changes hands, and no run has ended. -/
theorem Ran.cell (h : Ran cfg pool migrated migrations) {migrated' : OnceCell Unit}
    (hold : migrated ≠ .full ()) (hnew : migrated' ≠ .full ()) :
    Ran cfg pool migrated' migrations :=
  ⟨h.pool, fun _ => h.failed hold, fun hfull => absurd hfull hnew, h.enabled⟩

/-- A run has ended. -/
theorem Ran.concat (h : Ran cfg pool migrated migrations) (hold : migrated ≠ .full ())
    {p : PoolId} (hpool : pool = .full p) (hon : cfg.migrateOnStart = true) :
    Ran cfg pool (.full ()) (migrations ++ [(p, true)]) ∧
      Ran cfg pool .empty (migrations ++ [(p, false)]) := by
  have hall : ∀ b, ∀ m ∈ migrations ++ [(p, b)], pool = .full m.1 := by
    intro b m hm
    rcases List.mem_append.mp hm with hm | hm
    · exact h.pool m hm
    · rw [List.mem_singleton.mp hm]
      exact hpool
  refine ⟨⟨hall true, fun hne => absurd rfl hne, fun _ => ⟨migrations, p, rfl, h.failed hold⟩,
    fun _ => hon⟩, ⟨hall false, fun _ m hm => ?_, nofun, fun _ => hon⟩⟩
  rcases List.mem_append.mp hm with hm | hm
  · exact h.failed hold m hm
  · rw [List.mem_singleton.mp hm]

end Ran

/-- A call holds no cell then. -/
def DbPhase.free : DbPhase → Bool
  | .filling | .migrating _ => false
  | _ => true

theorem DbCall.holds_of_free {c : DbCall} (h : c.phase.free = true) :
    c.fills = false ∧ c.migrates = false := by
  obtain ⟨kind, phase⟩ := c
  cases phase with
  | filling => cases h
  | migrating p => cases h
  | connecting | setting | entering | looking | ensuring | returned | dropped => exact ⟨rfl, rfl⟩

section Put
variable {cfg : DbSettings} {s s₁ : Db} {i : Nat} {c : DbCall} {phase : DbPhase}

/-- A call goes to another phase, and the cells with it. -/
theorem Db.Inv.put (h : s.Inv cfg) (hcalls : s₁.calls = s.calls)
    (hpool : s.pool.Extends s₁.pool) (hmigrated : s.migrated.Extends s₁.migrated)
    (hpoolHeld : s₁.pool.Held DbCall.fills (s.calls.set i { c with phase := phase }))
    (hmigratedHeld : s₁.migrated.Held DbCall.migrates (s.calls.set i { c with phase := phase }))
    (hfits : phase.Fits cfg s₁.pool s₁.migrated)
    (hran : Ran cfg s₁.pool s₁.migrated s₁.migrations) : (s₁.put i c phase).Inv cfg := by
  refine ⟨?_, ?_, fun d hd => ?_, hran⟩
  · rw [Db.put, hcalls]
    exact hpoolHeld
  · rw [Db.put, hcalls]
    exact hmigratedHeld
  · rw [Db.put, hcalls] at hd
    rcases List.mem_or_eq_of_mem_set hd with hd | rfl
    · exact (h.fits d hd).mono hpool hmigrated
    · exact hfits

/-- The same when the call holds no cell. -/
theorem Db.Inv.move (h : s.Inv cfg) (hi : s.calls[i]? = some c) (hcalls : s₁.calls = s.calls)
    (hpool : s.pool.Extends s₁.pool) (hmigrated : s₁.migrated = s.migrated)
    (hpoolHeld : s₁.pool.Held DbCall.fills s.calls)
    (hbefore : c.phase.free = true) (hafter : phase.free = true)
    (hfits : phase.Fits cfg s₁.pool s.migrated)
    (hran : Ran cfg s₁.pool s.migrated s₁.migrations) : (s₁.put i c phase).Inv cfg := by
  obtain ⟨hfills, hmigrates⟩ := DbCall.holds_of_free hbefore
  obtain ⟨hfills', hmigrates'⟩ := DbCall.holds_of_free (c := { c with phase := phase }) hafter
  refine h.put hcalls hpool (by rw [hmigrated]; exact .refl _)
    (hpoolHeld.keep hi (by rw [hfills, hfills'])) ?_ ?_ ?_
  · rw [hmigrated]
    exact h.migratedHeld.keep hi (by rw [hmigrates, hmigrates'])
  · rw [hmigrated]
    exact hfits
  · rw [hmigrated]
    exact hran

/-- The call leaves the cell of the pool, with a pool or without. -/
theorem Db.Inv.leavePool (h : s.Inv cfg) (hi : s.calls[i]? = some c) (hphase : c.phase = .filling)
    (connected : Nat) {pool : OnceCell PoolId} (hpool : pool ≠ .busy) (hafter : phase.free = true)
    (hfits : phase.Fits cfg pool s.migrated) :
    ({ s with connected := connected, pool := pool }.put i c phase).Inv cfg ∧
      s.pool.Extends pool := by
  have hfills : c.fills = true := by
    rw [DbCall.fills, hphase]
    rfl
  have hmigrates : c.migrates = false := by rw [DbCall.migrates, hphase]
  have hextends : s.pool.Extends pool := by
    rw [h.poolHeld.busy_of_holds hi hfills]
    exact .of_ne_full (by simp)
  obtain ⟨hfills', hmigrates'⟩ := DbCall.holds_of_free (c := { c with phase := phase }) hafter
  exact ⟨h.put rfl hextends (.refl _) (h.poolHeld.leave hi hfills hfills' hpool)
    (h.migratedHeld.keep hi (by rw [hmigrates, hmigrates'])) hfits (h.ran.mono hextends), hextends⟩

/-- The call leaves the cell of the migration. -/
theorem Db.Inv.leaveMigrated (h : s.Inv cfg) (hi : s.calls[i]? = some c) {p : PoolId}
    (hphase : c.phase = .migrating p) {migrated : OnceCell Unit}
    {migrations : List (PoolId × Bool)} (hmigrated : migrated ≠ .busy)
    (hafter : phase.free = true) (hfits : s.pool = .full p → phase.Fits cfg s.pool migrated)
    (hran : s.migrated ≠ .full () → s.pool = .full p → cfg.migrateOnStart = true →
      Ran cfg s.pool migrated migrations) :
    ({ s with migrated := migrated, migrations := migrations }.put i c phase).Inv cfg ∧
      s.pool.Extends s.pool := by
  have hfills : c.fills = false := by simp [DbCall.fills, hphase]
  have hmigrates : c.migrates = true := by rw [DbCall.migrates, hphase]
  have hbusy := h.migratedHeld.busy_of_holds hi hmigrates
  have hnotFull : s.migrated ≠ .full () := by simp [hbusy]
  obtain ⟨hpool, hon⟩ := (h.fits c (List.mem_of_getElem? hi)).migrating p hphase
  obtain ⟨hfills', hmigrates'⟩ := DbCall.holds_of_free (c := { c with phase := phase }) hafter
  refine ⟨h.put rfl (.refl _) (.of_ne_full fun _ => hnotFull)
    (h.poolHeld.keep hi (by rw [hfills, hfills']))
    (h.migratedHeld.leave hi hmigrates hmigrates' hmigrated) (hfits hpool)
    (hran hnotFull hpool hon), .refl _⟩

end Put

theorem fits_withPool {cfg : DbSettings} (kind : DbCallKind) {p : PoolId} {pool : OnceCell PoolId}
    {migrated : OnceCell Unit} (hpool : pool = .full p) :
    (cfg.withPool kind p).Fits cfg pool migrated := by
  rw [DbSettings.withPool]
  split
  · next hon =>
    refine ⟨nofun, fun q hq => ?_, nofun, nofun⟩
    cases hq
    exact ⟨hpool, hon⟩
  · next hoff =>
    refine ⟨?_, ?_, ?_, ?_⟩ <;> cases kind <;> simp_all [DbCallKind.ok]

theorem fits_ok {cfg : DbSettings} (kind : DbCallKind) {p : PoolId} {pool : OnceCell PoolId}
    (hpool : pool = .full p) : (kind.ok p).Fits cfg pool (.full ()) := by
  cases kind with
  | init => exact ⟨nofun, nofun, nofun, nofun⟩
  | getPool =>
    refine ⟨nofun, nofun, nofun, fun q hq => ?_⟩
    cases hq
    exact ⟨hpool, fun _ => rfl⟩

/-- A phase that says nothing about the cells. -/
def DbPhase.isPlain : DbPhase → Bool
  | .connecting | .setting _ | .entering | .filling | .dropped => true
  | .returned (.ok none) | .returned (.error _) => true
  | _ => false

theorem fits_of_isPlain {cfg : DbSettings} {pool : OnceCell PoolId} {migrated : OnceCell Unit}
    {phase : DbPhase} (h : phase.isPlain = true) : phase.Fits cfg pool migrated := by
  refine ⟨?_, ?_, ?_, ?_⟩
  · rintro rfl
    cases h
  · rintro p rfl
    cases h
  · rintro p rfl
    cases h
  · rintro p rfl
    cases h

theorem Db.inv_new (cfg : DbSettings) : Db.new.Inv cfg :=
  ⟨rfl, rfl, nofun, ⟨nofun, fun _ => nofun, nofun, fun h => absurd rfl h⟩⟩

theorem free_withPool (cfg : DbSettings) (kind : DbCallKind) (p : PoolId) :
    (cfg.withPool kind p).free = true := by
  rw [DbSettings.withPool]
  cases kind <;> split <;> rfl

theorem free_ok (kind : DbCallKind) (p : PoolId) : (kind.ok p).free = true := by
  cases kind <;> rfl

/-- **Every step** keeps the invariant, and what a cell holds. -/
theorem Db.Inv.step {cfg : DbSettings} {s s' : Db} {a : DbStep} (h : s.Inv cfg)
    (hstep : s.step cfg a = some s') : s'.Inv cfg ∧ s.pool.Extends s'.pool := by
  cases Db.steps_of_step hstep with
  | call kind =>
    refine ⟨⟨h.poolHeld.append ?_, h.migratedHeld.append ?_, fun d hd => ?_, h.ran⟩, .refl _⟩
    · cases kind <;> rfl
    · cases kind <;> rfl
    · rcases List.mem_append.mp hd with hd | hd
      · exact h.fits d hd
      · rw [List.mem_singleton.mp hd]
        exact fits_of_isPlain (by cases kind <;> rfl)
  | @set i c p hi hphase =>
    have hextends := OnceCell.extends_set p s.pool
    refine ⟨h.move hi rfl hextends rfl (h.poolHeld.set p) (by rw [hphase]; rfl) ?_ ?_
      (h.ran.mono hextends), hextends⟩
    · split <;> rfl
    · split
      · next hon => exact ⟨fun _ => hon, by rintro _ ⟨⟩, by rintro _ ⟨⟩, by rintro _ ⟨⟩⟩
      · exact fits_of_isPlain rfl
  | @look i c p hi hphase hpool =>
    have hon := (h.fits c (List.mem_of_getElem? hi)).looking hphase
    refine ⟨h.move hi rfl (.refl _) rfl h.poolHeld (by rw [hphase]; rfl) rfl ?_ h.ran, .refl _⟩
    refine ⟨by rintro ⟨⟩, fun q hq => ?_, by rintro _ ⟨⟩, by rintro _ ⟨⟩⟩
    cases hq
    exact ⟨hpool, hon⟩
  | @lookNone i c hi hphase =>
    exact ⟨h.move hi rfl (.refl _) rfl h.poolHeld (by rw [hphase]; rfl) rfl (fits_of_isPlain rfl)
      h.ran, .refl _⟩
  | @enter i c p hi hphase hpool =>
    exact ⟨h.move hi rfl (.refl _) rfl h.poolHeld (by rw [hphase]; rfl) (free_withPool cfg c.kind p)
      (fits_withPool c.kind hpool) h.ran, .refl _⟩
  | @fill i c hi hphase hpool =>
    have hextends : s.pool.Extends .busy := by
      rw [hpool]
      exact .of_ne_full (by simp)
    have hheld := h.poolHeld
    rw [hpool] at hheld
    refine ⟨h.put rfl hextends (.refl _) (hheld.take hi ?_ rfl) (h.migratedHeld.keep hi ?_)
      (fits_of_isPlain rfl) (h.ran.mono hextends), hextends⟩
    · rw [DbCall.fills, hphase]
      rfl
    · simp [DbCall.migrates, hphase]
  | @migrated i c p hi hphase hcell =>
    have hpool := ((h.fits c (List.mem_of_getElem? hi)).ensuring p hphase).1
    refine ⟨h.move hi rfl (.refl _) rfl h.poolHeld (by rw [hphase]; rfl) (free_ok c.kind p) ?_
      h.ran, .refl _⟩
    rw [hcell]
    exact fits_ok c.kind hpool
  | @migrate i c p hi hphase hcell =>
    have hfits := (h.fits c (List.mem_of_getElem? hi)).ensuring p hphase
    have hheld := h.migratedHeld
    have hran := h.ran
    rw [hcell] at hheld hran
    refine ⟨h.put rfl (.refl _) ?_ (h.poolHeld.keep hi ?_) (hheld.take hi ?_ rfl) ?_
      (hran.cell (by simp) (by simp)), .refl _⟩
    · rw [hcell]
      exact .of_ne_full (by simp)
    · simp [DbCall.fills, hphase]
    · rw [DbCall.migrates, hphase]
    · refine ⟨by rintro ⟨⟩, by rintro _ ⟨⟩, fun q hq => ?_, by rintro _ ⟨⟩⟩
      cases hq
      exact hfits
  | @connected i c _ _ hi hphase =>
    exact ⟨h.move hi rfl (.refl _) rfl h.poolHeld (by rw [hphase]; rfl) rfl (fits_of_isPlain rfl)
      h.ran, .refl _⟩
  | @notConnected i c e _ _ hi hphase =>
    refine ⟨h.move hi rfl (.refl _) rfl h.poolHeld (by rw [hphase]; rfl) rfl (fits_of_isPlain ?_)
      h.ran, .refl _⟩
    cases cfg.eagerInit <;> rfl
  | @filled i c _ _ hi hphase =>
    exact h.leavePool hi hphase (s.connected + 1) (by simp) (free_withPool cfg c.kind s.connected)
      (fits_withPool c.kind rfl)
  | @notFilled i c e _ _ hi hphase =>
    exact h.leavePool hi hphase s.connected (by simp) rfl (fits_of_isPlain rfl)
  | @migrationDone i c p _ hi hphase =>
    exact h.leaveMigrated hi hphase (by simp) (free_ok c.kind p) (fits_ok c.kind)
      fun hold hpool hon => (h.ran.concat hold hpool hon).1
  | @migrationFailed i c p msg _ hi hphase =>
    exact h.leaveMigrated hi hphase (by simp) rfl (fun _ => fits_of_isPlain rfl)
      fun hold hpool hon => (h.ran.concat hold hpool hon).2
  | @dropFilling i c hi hphase =>
    exact h.leavePool hi hphase s.connected (by simp) rfl (fits_of_isPlain rfl)
  | @dropMigrating i c p hi hphase =>
    exact h.leaveMigrated hi hphase (by simp) rfl (fun _ => fits_of_isPlain rfl)
      fun hold _ _ => h.ran.cell hold (by simp)
  | @drop i c hi hfills hmigrates =>
    have hfree : c.phase.free = true := by
      obtain ⟨kind, phase⟩ := c
      cases phase with
      | filling => cases hfills
      | migrating p => cases hmigrates
      | connecting | setting | entering | looking | ensuring | returned | dropped => rfl
    exact ⟨h.move hi rfl (.refl _) rfl h.poolHeld hfree rfl (fits_of_isPlain rfl) h.ran, .refl _⟩

theorem inductive_dbInv (cfg : DbSettings) :
    (db cfg).Inductive (fun _ => True) fun _ s => s.Inv cfg where
  start := by
    intro s hs
    cases hs
    exact Db.inv_new cfg
  next := by
    intro tr s a s' _ h hstep
    exact (h.step hstep).1

/-! ## Whole runs -/

/-- What the calls of a `Db` have come to. -/
structure Db.OnePool (cfg : DbSettings) (s : Db) : Prop where
  /-- Every call that has returned a pool returned the one of the cell, migrated. -/
  returned : ∀ c ∈ s.calls, ∀ p, c.phase = .returned (.ok (some p)) →
    s.pool = .full p ∧ (cfg.migrateOnStart = true → (p, true) ∈ s.migrations)
  /-- Only this pool was migrated, and never again after a success. -/
  migrations : (∀ m ∈ s.migrations, s.pool = .full m.1) ∧
    ∀ pre m post, s.migrations = pre ++ m :: post → m.2 = true → post = []
  disabled : cfg.migrateOnStart = false → s.migrations = []
  /-- No two calls connect for the cell, or migrate, at a time. -/
  alone : s.calls.countP DbCall.fills ≤ 1 ∧ s.calls.countP DbCall.migrates ≤ 1

theorem Ran.last {cfg : DbSettings} {pool : OnceCell PoolId} {migrated : OnceCell Unit}
    {migrations : List (PoolId × Bool)} (h : Ran cfg pool migrated migrations)
    {pre post : List (PoolId × Bool)} {m : PoolId × Bool} (heq : migrations = pre ++ m :: post)
    (hm : m.2 = true) : post = [] := by
  by_cases hfull : migrated = .full ()
  · obtain ⟨fails, p, hruns, hfails⟩ := h.done hfull
    rcases List.eq_nil_or_concat post with rfl | ⟨post', last, rfl⟩
    · rfl
    · -- the success would be among the failures before the last run
      rw [heq, List.concat_eq_append, ← List.cons_append, ← List.append_assoc] at hruns
      have hinit := (List.append_inj' hruns rfl).1
      have hfalse := hfails m (hinit ▸ by simp)
      rw [hm] at hfalse
      cases hfalse
  · have hfalse := h.failed hfull m (heq ▸ by simp)
    rw [hm] at hfalse
    cases hfalse

theorem Db.Inv.onePool {cfg : DbSettings} {s : Db} (h : s.Inv cfg) : s.OnePool cfg where
  returned := by
    intro c hc p hphase
    obtain ⟨hpool, hmigrated⟩ := (h.fits c hc).returned p hphase
    refine ⟨hpool, fun hon => ?_⟩
    obtain ⟨fails, q, hruns, -⟩ := h.ran.done (hmigrated hon)
    have hmem : (q, true) ∈ s.migrations := by simp [hruns]
    have hsame := (h.ran.pool _ hmem).symm.trans hpool
    cases hsame
    exact hmem
  migrations := ⟨h.ran.pool, fun _ _ _ heq hm => h.ran.last heq hm⟩
  disabled := by
    intro hoff
    by_contra hne
    rw [h.ran.enabled hne] at hoff
    cases hoff
  alone := ⟨h.poolHeld.countP_le_one, h.migratedHeld.countP_le_one⟩

theorem inductive_extends {cfg : DbSettings} {s : Db} (h : s.Inv cfg) :
    (Lts.ofStep s (Db.step cfg)).Inductive (fun _ => True)
      fun _ s' => s'.Inv cfg ∧ s.pool.Extends s'.pool where
  start := by
    intro s' hs
    cases hs
    exact ⟨h, .refl _⟩
  next := by
    intro tr s' a s'' _ h hstep
    obtain ⟨hinv, hextends⟩ := h.1.step hstep
    exact ⟨hinv, fun p hp => hextends p (h.2 p hp)⟩

/-- **One pool for all.** For every run of `init` and `get_pool` calls, whatever their
attempts and migrations come to and wherever one is dropped: all calls that return a pool
return the same, which stays in the cell for good; it is migrated before it is returned, by
one call at a time and never again after a success; and from then on a health check does not
take the `Db` for uninitialised. -/
theorem db_onePool {cfg : DbSettings} {tr : List DbStep} {s : Db} (h : (db cfg).Run tr s) :
    s.OnePool cfg ∧ ∀ tr' s', (Lts.ofStep s (Db.step cfg)).Run tr' s' →
      s.pool.Extends s'.pool ∧
      ∀ c ∈ s.calls, ∀ p, c.phase = .returned (.ok (some p)) →
        ∀ probe, s'.healthCheck cfg probe ≠ .notInitialized := by
  have hinv := h.invariant (inductive_dbInv cfg) fun _ _ => trivial
  refine ⟨hinv.onePool, fun tr' s' hrun => ?_⟩
  have hextends := (hrun.invariant (inductive_extends hinv) fun _ _ => trivial).2
  refine ⟨hextends, fun c hc p hphase probe => ?_⟩
  have hfull := hextends p (hinv.onePool.returned c hc p hphase).1
  simp only [Db.healthCheck, hfull, OnceCell.get?]
  split
  · simp
  · split <;> simp

/-! ## A race -/

/-- Migrations are run, and a missing database is an error. -/
def raceSettings : DbSettings := ⟨⟨some "postgres://db".toList, 1, 200⟩, true, true⟩

/-- An `init` and a `get_pool` both connect; the first migration fails. -/
def race : List DbStep :=
  [.call .init, .call .getPool, .move 1, .connect 0 (fun _ => firstOfRange) fun _ => .ok (),
    .connect 1 (fun _ => firstOfRange) fun _ => .ok (), .move 0, .move 1, .move 0,
    .migrate 1 (.error "locked".toList), .call .getPool]

/-- The `init` has come too late with its pool, and is about to migrate the other. -/
def raceMiddle : Db :=
  ⟨.full 1, .empty, 2, [(1, false)],
    [⟨.init, .ensuring 1⟩, ⟨.getPool, .returned (.error (.migrate "locked".toList))⟩,
      ⟨.getPool, .entering⟩]⟩

def raceEnd : List DbStep := [.move 0, .move 2, .migrate 0 (.ok ()), .move 2]

def raceLast : Db :=
  ⟨.full 1, .full (), 2, [(1, false), (1, true)],
    [⟨.init, .returned (.ok none)⟩, ⟨.getPool, .returned (.error (.migrate "locked".toList))⟩,
      ⟨.getPool, .returned (.ok (some 1))⟩]⟩

theorem raceMiddle_run : (db raceSettings).Run race raceMiddle := Lts.run_of_foldlM rfl

theorem raceLast_run : (Lts.ofStep raceMiddle (Db.step raceSettings)).Run raceEnd raceLast :=
  Lts.run_of_foldlM rfl

theorem db_onePool_race :
    raceLast.OnePool raceSettings ∧
      ∀ tr' s', (Lts.ofStep raceLast (Db.step raceSettings)).Run tr' s' →
        raceLast.pool.Extends s'.pool ∧
        ∀ c ∈ raceLast.calls, ∀ p, c.phase = .returned (.ok (some p)) →
          ∀ probe, s'.healthCheck raceSettings probe ≠ .notInitialized :=
  db_onePool (show (db raceSettings).Run (race ++ raceEnd) raceLast from Lts.run_of_foldlM rfl)

end Gurted.Storage
