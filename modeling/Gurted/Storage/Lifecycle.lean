import Gurted.Lib.Lts
import Gurted.Lib.OnceCell
import Gurted.Storage.Connect

/-!
# The database handle (`Db` of `gurt-db/src/lib.rs`)

Any number of `init` and `get_pool` calls share one `Db`. Both of its cells are filled at
most once, by whichever call comes first; the others wait for a cell that is being
filled, and `init` goes on without. A call may be dropped at any of its steps.
-/

namespace Gurted.Storage

open Gurted Gurted.Lib

/-- The settings that decide what a call does. -/
structure DbSettings extends DbConfig where
  eagerInit : Bool
  migrateOnStart : Bool
  deriving DecidableEq, Repr

/-- What a call can fail with. -/
inductive DbCallError where
  | init (e : DbInitError)
  | migrate (msg : Str)
  deriving DecidableEq, Repr

/-! ## State and steps -/

/-- A pool is known by its number among those that connected. -/
abbrev PoolId := Nat

inductive DbCallKind where
  | init
  | getPool
  deriving DecidableEq, Repr

/-- Where a call is. -/
inductive DbPhase where
  /-- `init` connects, outside the cell. -/
  | connecting
  /-- `init` has connected and sets the cell. -/
  | setting (p : PoolId)
  /-- `get_pool` is at the cell. -/
  | entering
  /-- `get_pool` connects, holding the cell. -/
  | filling
  /-- `init` looks whether there is a pool to migrate. -/
  | looking
  /-- `ensure_migrated` is at its cell. -/
  | ensuring (p : PoolId)
  /-- The migrator runs, holding the cell. -/
  | migrating (p : PoolId)
  /-- The call has returned; `get_pool` returns a pool. -/
  | returned (result : Except DbCallError (Option PoolId))
  | dropped
  deriving DecidableEq, Repr

structure DbCall where
  kind : DbCallKind
  phase : DbPhase
  deriving DecidableEq, Repr

structure Db where
  pool : OnceCell PoolId
  migrated : OnceCell Unit
  /-- How many pools have connected. -/
  connected : Nat
  /-- The runs of the migrator that have ended, oldest first: the pool, and whether it
  succeeded. -/
  migrations : List (PoolId × Bool)
  calls : List DbCall
  deriving DecidableEq, Repr

def Db.new : Db := ⟨.empty, .empty, 0, [], []⟩

inductive DbStep where
  | call (kind : DbCallKind)
  /-- The call goes on by itself. -/
  | move (i : Nat)
  /-- `try_connect_with_retry` ends, its attempts having come to these outcomes. -/
  | connect (i : Nat) (rng : UInt32 → Fastrand) (attempt : UInt32 → Except Str Unit)
  /-- The migrator ends. -/
  | migrate (i : Nat) (result : Except Str Unit)
  /-- The future of the call is dropped. -/
  | drop (i : Nat)

/-- The first step of a call. -/
def DbCallKind.start : DbCallKind → DbPhase
  | .init => .connecting
  | .getPool => .entering

/-- `Ok` of a call that has come to a pool. -/
def DbCallKind.ok (kind : DbCallKind) (p : PoolId) : DbPhase :=
  match kind with
  | .init => .returned (.ok none)
  | .getPool => .returned (.ok (some p))

/-- A call that has a pool migrates it, where that is enabled. -/
def DbSettings.withPool (cfg : DbSettings) (kind : DbCallKind) (p : PoolId) : DbPhase :=
  if cfg.migrateOnStart then .ensuring p else kind.ok p

/-- A call is at another phase. -/
def Db.put (s : Db) (i : Nat) (c : DbCall) (phase : DbPhase) : Db :=
  { s with calls := s.calls.set i { c with phase := phase } }

/-- The step a call takes by itself; none while it waits for a cell. -/
def Db.move (cfg : DbSettings) (s : Db) (i : Nat) (c : DbCall) : Option Db :=
  match c.phase with
  | .setting p =>
      -- a pool that comes too late is dropped
      let s := { s with pool := s.pool.set p }
      some (s.put i c (if cfg.migrateOnStart then .looking else .returned (.ok none)))
  | .looking =>
      match s.pool.get? with
      | some p => some (s.put i c (.ensuring p))
      | none => some (s.put i c (.returned (.ok none)))
  | .entering =>
      match s.pool.get? with
      | some p => some (s.put i c (cfg.withPool c.kind p))
      | none => s.pool.take.map fun pool => { s with pool := pool }.put i c .filling
  | .ensuring p =>
      match s.migrated.get? with
      | some () => some (s.put i c (c.kind.ok p))
      | none => s.migrated.take.map fun cell => { s with migrated := cell }.put i c (.migrating p)
  | _ => none

/-- The end of a connection attempt. -/
def Db.connect (cfg : DbSettings) (s : Db) (i : Nat) (c : DbCall)
    (result : Except DbInitError Unit) : Option Db :=
  match c.phase, result with
  | .connecting, .ok () =>
      some ({ s with connected := s.connected + 1 }.put i c (.setting s.connected))
  | .connecting, .error e =>
      some (s.put i c (.returned (if cfg.eagerInit then .error (.init e) else .ok none)))
  | .filling, .ok () =>
      some ({ s with connected := s.connected + 1, pool := .full s.connected }.put i c
        (cfg.withPool c.kind s.connected))
  | .filling, .error e =>
      some ({ s with pool := .empty }.put i c (.returned (.error (.init e))))
  | _, _ => none

/-- The end of a run of the migrator. -/
def Db.migrate (s : Db) (i : Nat) (c : DbCall) (result : Except Str Unit) : Option Db :=
  match c.phase, result with
  | .migrating p, .ok () =>
      some ({ s with migrated := .full (), migrations := s.migrations ++ [(p, true)] }.put i c
        (c.kind.ok p))
  | .migrating p, .error msg =>
      some ({ s with migrated := .empty, migrations := s.migrations ++ [(p, false)] }.put i c
        (.returned (.error (.migrate msg))))
  | _, _ => none

/-- A dropped future lets go of its cell. -/
def Db.drop (s : Db) (i : Nat) (c : DbCall) : Option Db :=
  match c.phase with
  | .filling => some ({ s with pool := .empty }.put i c .dropped)
  | .migrating _ => some ({ s with migrated := .empty }.put i c .dropped)
  | .returned _ | .dropped => none
  | _ => some (s.put i c .dropped)

def Db.step (cfg : DbSettings) (s : Db) : DbStep → Option Db
  | .call kind => some { s with calls := s.calls ++ [⟨kind, kind.start⟩] }
  | .move i => s.calls[i]?.bind (s.move cfg i)
  | .connect i rng attempt =>
      (s.calls[i]?).bind fun c =>
        (tryConnectWithRetry cfg.toDbConfig rng attempt).bind fun out => s.connect cfg i c out.1
  | .migrate i result => (s.calls[i]?).bind fun c => s.migrate i c result
  | .drop i => s.calls[i]?.bind (s.drop i)

/-- A `Db` under any number of calls. -/
def db (cfg : DbSettings) : Lts Db DbStep := .ofStep .new (Db.step cfg)

/-! ## Health checks -/

inductive HealthStatus where
  | noUrl
  | notInitialized
  | ok
  | error (msg : Str)
  deriving DecidableEq, Repr

/-- `health_check`; the probe is what the query comes to, `none` if it takes too long. -/
def Db.healthCheck (cfg : DbSettings) (s : Db) (probe : Option (Except Str Unit)) : HealthStatus :=
  if cfg.databaseUrl.isNone then .noUrl
  else match s.pool.get? with
    | none => .notInitialized
    | some _ =>
      match probe with
      | some (.ok ()) => .ok
      | some (.error e) => .error e
      | none => .error "health check timed out".toList

/-! ## What a step does -/

/-- The call holds the cell of the pool. -/
def DbCall.fills (c : DbCall) : Bool := c.phase == .filling

/-- The call holds the cell of the migration. -/
def DbCall.migrates (c : DbCall) : Bool :=
  match c.phase with
  | .migrating _ => true
  | _ => false

/-- What a step can do to the call `i` and to the cells. -/
inductive Db.Steps (cfg : DbSettings) (s : Db) : DbStep → Db → Prop
  | call (kind : DbCallKind) :
      Steps cfg s (.call kind) { s with calls := s.calls ++ [⟨kind, kind.start⟩] }
  | set {i c p} (hi : s.calls[i]? = some c) (hphase : c.phase = .setting p) :
      Steps cfg s (.move i) ({ s with pool := s.pool.set p }.put i c
        (if cfg.migrateOnStart then .looking else .returned (.ok none)))
  | look {i c p} (hi : s.calls[i]? = some c) (hphase : c.phase = .looking)
      (hpool : s.pool = .full p) : Steps cfg s (.move i) (s.put i c (.ensuring p))
  | lookNone {i c} (hi : s.calls[i]? = some c) (hphase : c.phase = .looking) :
      Steps cfg s (.move i) (s.put i c (.returned (.ok none)))
  | enter {i c p} (hi : s.calls[i]? = some c) (hphase : c.phase = .entering)
      (hpool : s.pool = .full p) : Steps cfg s (.move i) (s.put i c (cfg.withPool c.kind p))
  | fill {i c} (hi : s.calls[i]? = some c) (hphase : c.phase = .entering)
      (hpool : s.pool = .empty) : Steps cfg s (.move i) ({ s with pool := .busy }.put i c .filling)
  | migrated {i c p} (hi : s.calls[i]? = some c) (hphase : c.phase = .ensuring p)
      (hcell : s.migrated = .full ()) : Steps cfg s (.move i) (s.put i c (c.kind.ok p))
  | migrate {i c p} (hi : s.calls[i]? = some c) (hphase : c.phase = .ensuring p)
      (hcell : s.migrated = .empty) :
      Steps cfg s (.move i) ({ s with migrated := .busy }.put i c (.migrating p))
  | connected {i c rng attempt} (hi : s.calls[i]? = some c) (hphase : c.phase = .connecting) :
      Steps cfg s (.connect i rng attempt)
        ({ s with connected := s.connected + 1 }.put i c (.setting s.connected))
  | notConnected {i c e rng attempt} (hi : s.calls[i]? = some c) (hphase : c.phase = .connecting) :
      Steps cfg s (.connect i rng attempt)
        (s.put i c (.returned (if cfg.eagerInit then .error (.init e) else .ok none)))
  | filled {i c rng attempt} (hi : s.calls[i]? = some c) (hphase : c.phase = .filling) :
      Steps cfg s (.connect i rng attempt)
        ({ s with connected := s.connected + 1, pool := .full s.connected }.put i c
          (cfg.withPool c.kind s.connected))
  | notFilled {i c e rng attempt} (hi : s.calls[i]? = some c) (hphase : c.phase = .filling) :
      Steps cfg s (.connect i rng attempt)
        ({ s with pool := .empty }.put i c (.returned (.error (.init e))))
  | migrationDone {i c p result} (hi : s.calls[i]? = some c) (hphase : c.phase = .migrating p) :
      Steps cfg s (.migrate i result)
        ({ s with migrated := .full (), migrations := s.migrations ++ [(p, true)] }.put i c
          (c.kind.ok p))
  | migrationFailed {i c p msg result} (hi : s.calls[i]? = some c)
      (hphase : c.phase = .migrating p) :
      Steps cfg s (.migrate i result)
        ({ s with migrated := .empty, migrations := s.migrations ++ [(p, false)] }.put i c
          (.returned (.error (.migrate msg))))
  | dropFilling {i c} (hi : s.calls[i]? = some c) (hphase : c.phase = .filling) :
      Steps cfg s (.drop i) ({ s with pool := .empty }.put i c .dropped)
  | dropMigrating {i c p} (hi : s.calls[i]? = some c) (hphase : c.phase = .migrating p) :
      Steps cfg s (.drop i) ({ s with migrated := .empty }.put i c .dropped)
  | drop {i c} (hi : s.calls[i]? = some c) (hfills : c.fills = false)
      (hmigrates : c.migrates = false) : Steps cfg s (.drop i) (s.put i c .dropped)

theorem full_of_get? {α : Type*} {c : OnceCell α} {a : α} (h : c.get? = some a) : c = .full a := by
  cases c with
  | full b =>
    cases h
    rfl
  | empty => cases h
  | busy => cases h

theorem Db.steps_of_move {cfg : DbSettings} {s s' : Db} {i : Nat} {c : DbCall}
    (hi : s.calls[i]? = some c) (h : s.move cfg i c = some s') :
    s.Steps cfg (.move i) s' := by
  rw [Db.move.eq_def] at h
  split at h
  · next p hphase =>
    cases h
    exact .set hi hphase
  · next hphase =>
    split at h
    · next p hpool =>
      cases h
      exact .look hi hphase (full_of_get? hpool)
    · cases h
      exact .lookNone hi hphase
  · next hphase =>
    split at h
    · next p hpool =>
      cases h
      exact .enter hi hphase (full_of_get? hpool)
    · obtain ⟨pool, htake, rfl⟩ := Option.map_eq_some_iff.mp h
      obtain ⟨hempty, rfl⟩ := OnceCell.take_eq_some htake
      exact .fill hi hphase hempty
  · next p hphase =>
    split at h
    · next hcell =>
      cases h
      exact .migrated hi hphase (full_of_get? hcell)
    · obtain ⟨cell, htake, rfl⟩ := Option.map_eq_some_iff.mp h
      obtain ⟨hempty, rfl⟩ := OnceCell.take_eq_some htake
      exact .migrate hi hphase hempty
  · cases h

theorem Db.steps_of_connect {cfg : DbSettings} {s s' : Db} {i : Nat} {c : DbCall}
    {rng : UInt32 → Fastrand} {attempt : UInt32 → Except Str Unit}
    {result : Except DbInitError Unit} (hi : s.calls[i]? = some c)
    (h : s.connect cfg i c result = some s') : s.Steps cfg (.connect i rng attempt) s' := by
  rw [Db.connect.eq_def] at h
  split at h
  · next hphase =>
    cases h
    exact .connected hi hphase
  · next e hphase =>
    cases h
    exact .notConnected hi hphase
  · next hphase =>
    cases h
    exact .filled hi hphase
  · next e hphase =>
    cases h
    exact .notFilled hi hphase
  · cases h

theorem Db.steps_of_migrate {cfg : DbSettings} {s s' : Db} {i : Nat} {c : DbCall}
    {result : Except Str Unit} (hi : s.calls[i]? = some c)
    (h : s.migrate i c result = some s') : s.Steps cfg (.migrate i result) s' := by
  rw [Db.migrate.eq_def] at h
  split at h
  · next p hphase =>
    cases h
    exact .migrationDone hi hphase
  · next p msg hphase =>
    cases h
    exact .migrationFailed hi hphase
  · cases h

theorem Db.steps_of_drop {cfg : DbSettings} {s s' : Db} {i : Nat} {c : DbCall}
    (hi : s.calls[i]? = some c) (h : s.drop i c = some s') :
    s.Steps cfg (.drop i) s' := by
  rw [Db.drop.eq_def] at h
  split at h
  · next hphase =>
    cases h
    exact .dropFilling hi hphase
  · next p hphase =>
    cases h
    exact .dropMigrating hi hphase
  · cases h
  · cases h
  · next hfilling hmigrating _ _ =>
    cases h
    refine .drop hi ?_ ?_
    · exact beq_eq_false_iff_ne.mpr hfilling
    · rw [DbCall.migrates]
      split
      · next p hphase => exact absurd hphase (hmigrating p)
      · rfl

theorem Db.steps_of_step {cfg : DbSettings} {s s' : Db} {a : DbStep}
    (h : s.step cfg a = some s') : s.Steps cfg a s' := by
  cases a with
  | call kind =>
    cases h
    exact .call kind
  | move i =>
    obtain ⟨c, hi, h⟩ := Option.bind_eq_some_iff.mp h
    exact steps_of_move hi h
  | connect i rng attempt =>
    obtain ⟨c, hi, h⟩ := Option.bind_eq_some_iff.mp h
    obtain ⟨out, -, h⟩ := Option.bind_eq_some_iff.mp h
    exact steps_of_connect hi h
  | migrate i result =>
    obtain ⟨c, hi, h⟩ := Option.bind_eq_some_iff.mp h
    exact steps_of_migrate hi h
  | drop i =>
    obtain ⟨c, hi, h⟩ := Option.bind_eq_some_iff.mp h
    exact steps_of_drop hi h

end Gurted.Storage
