import Gurted.Indexing.Service
import Gurted.Router.Submission
import Gurted.Std.Num

/-!
# A server and its restarts (`gurtd/src/startup.rs`, `indexing/mod.rs`, `router/api.rs`)

A server process takes submissions, runs their tasks, works on its indexing jobs and
lists the pending domains once, all in any order. The `domains` table outlives it; the
spawned tasks, the jobs and the list do not. A restart is a step like any other, so a
run goes through any number of processes.
-/

namespace Gurted.Recovery

open Gurted Gurted.Lib Gurted.Storage Gurted.Indexing Gurted.Router

/-! ## `bootstrap_resume` -/

/-- `env_flag_true` on the value of its variable. -/
def envFlagTrue (value : Option Str) (defaultTrue : Bool) : Bool :=
  match value with
  | some v =>
      let s := v.trim.toAsciiLowercase
      ["1".toList, "true".toList, "yes".toList, "on".toList].contains s
  | none => defaultTrue

/-- `env_usize`. -/
def envUsize (value : Option Str) (defaultVal : Nat) : Nat :=
  (value.bind fun s => Str.parseUsize s.trim).getD defaultVal

/-- The cast of a `usize` to an `i64`. -/
def asI64 (n : Nat) : Int := (n : Int).bmod (2 ^ 64)

/-- The variables `bootstrap_resume` reads; the one for its log is left out. -/
structure BootstrapEnv where
  /-- `GURT_BOOTSTRAP_ENABLED` -/
  enabled : Option Str
  /-- `GURT_BOOTSTRAP_LIMIT` -/
  limit : Option Str
  deriving DecidableEq, Repr

variable {lower : Str → Str}

/-- The domains `bootstrap_resume` goes through when the database answers. -/
def BootstrapEnv.domains (env : BootstrapEnv) (t : DomainsTable lower) : List Str :=
  if envFlagTrue env.enabled true then listPendingDomains t (asI64 (envUsize env.limit 200))
  else []

/-! ## State and steps -/

/-- The table, and what a process holds. -/
structure Node (lower : Str → Str) where
  table : DomainsTable lower
  /-- The spawned `upsert_domain_submission` tasks that have not run their statement. -/
  upserts : List Str
  /-- The accepted submissions whose handlers have still to call `enqueue_domain`. -/
  handlers : List Str
  service : Service
  /-- The attempts that have failed of the worker's loop over `set_domain_status`. -/
  failed : Nat
  /-- What `bootstrap_resume` has still to enqueue, once it has listed. -/
  boot : Option (List Str)

inductive Event where
  /-- `handle_add_site` has accepted a domain and spawned the task for its row. -/
  | submit (d : Str)
  /-- The handler calls `enqueue_domain`. -/
  | enqueue (d : Str)
  /-- The task runs its statement at a time. -/
  | upsert (d : Str) (now : Nat)
  /-- The database fails the task, which ends. -/
  | upsertFails (d : Str)
  /-- A step of an `enqueue` call or of the worker, but for the two ends of a job. -/
  | service (a : Action)
  /-- `process_domain` marks its domain and returns. -/
  | markReady (d : Str)
  /-- The statement fails, and the loop has attempts left. -/
  | markFails (d : Str)
  /-- The last attempt fails, and `process_domain` returns. -/
  | giveUp (d : Str)
  | panic (d : Str)
  /-- `bootstrap_resume` lists the pending domains. -/
  | list (env : BootstrapEnv)
  | listFails
  /-- `bootstrap_resume` enqueues its next domain. -/
  | resume
  /-- The process ends and a new one starts. -/
  | restart
  deriving DecidableEq, Repr

/-- A process that has just started. -/
def Node.fresh (t : DomainsTable lower) : Node lower := ⟨t, [], [], .new, 0, none⟩

/-- `enqueue_domain` up to the end of its first lock. -/
def enqueueDomain (s : Service) (d : Str) : Option Service :=
  if d.isEmpty then some s else s.step (.enqueue d)

/-- The steps that a run of the service takes by itself between the ends of a job. -/
def Inner : Action → Bool
  | .ensureWorker _ | .send _ | .remove _ | .recv | .workerRemove _ => true
  | .enqueue _ | .process _ | .panic _ => false

/-- `MAX_ATTEMPTS` -/
def maxAttempts : Nat := 3

def Node.step (s : Node lower) : Event → Option (Node lower)
  | .submit d =>
      if isValidDomain d then
        some { s with upserts := d :: s.upserts, handlers := d :: s.handlers }
      else none
  | .enqueue d =>
      if d ∈ s.handlers then
        (enqueueDomain s.service d).map fun service =>
          { s with handlers := s.handlers.erase d, service := service }
      else none
  | .upsert d now =>
      if d ∈ s.upserts then
        -- an error of the statement is dropped with the result
        match upsertDomainSubmission s.table d (some "api".toList) now with
        | .ok (_, table) => some { s with table := table, upserts := s.upserts.erase d }
        | .error _ => some { s with upserts := s.upserts.erase d }
      else none
  | .upsertFails d =>
      if d ∈ s.upserts then some { s with upserts := s.upserts.erase d } else none
  | .service a =>
      if Inner a then (s.service.step a).map fun service => { s with service := service }
      else none
  | .markReady d =>
      match s.service.step (.process d), setDomainStatus s.table d "ready".toList with
      | some service, .ok table => some { s with table := table, service := service, failed := 0 }
      | _, _ => none
  | .markFails d =>
      if s.service.worker = .processing d ∧ s.failed + 1 < maxAttempts then
        some { s with failed := s.failed + 1 }
      else none
  | .giveUp d =>
      if maxAttempts ≤ s.failed + 1 then
        (s.service.step (.process d)).map fun service => { s with service := service, failed := 0 }
      else none
  | .panic d => (s.service.step (.panic d)).map fun service => { s with service := service }
  | .list env =>
      if s.boot = none then some { s with boot := some (env.domains s.table) } else none
  | .listFails => if s.boot = none then some { s with boot := some [] } else none
  | .resume =>
      match s.boot with
      | some (d :: left) =>
          (enqueueDomain s.service d).map fun service =>
            { s with service := service, boot := some left }
      | _ => none
  | .restart => some (.fresh s.table)

/-- The runs of a server from a table. -/
def node (t₀ : DomainsTable lower) : Lts (Node lower) Event := .ofStep (.fresh t₀) Node.step

/-- The same from a state that was reached. -/
def nodeFrom (s₀ : Node lower) : Lts (Node lower) Event := .ofStep s₀ Node.step

end Gurted.Recovery
