import Gurted.Crawler.Scheduler

/-!
# The gates of the scheduler

A gate is locked exactly by the call that is between its `lock()` and the write of
its timestamp, and a call goes through the gate of its own host.
-/

namespace Gurted.Crawler

open Gurted Gurted.Lib

namespace Phase

/-- The gate a call waits at or has locked. -/
def usesGate : Phase → Option Nat
  | .lockGate g => some g
  | .readGate g => some g
  | .sleep g _ => some g
  | .sleeping g _ => some g
  | .record g => some g
  | _ => none

/-- The gate a call has locked. -/
def ownsGate : Phase → Option Nat
  | .readGate g => some g
  | .sleep g _ => some g
  | .sleeping g _ => some g
  | .record g => some g
  | _ => none

/-- The call is in the part of `acquire_polite` that only a delay leads to. -/
def isPolite : Phase → Bool
  | .politeGate => true
  | .lockGate _ => true
  | .readGate _ => true
  | .sleep _ _ => true
  | .sleeping _ _ => true
  | .record _ => true
  | _ => false

theorem usesGate_of_ownsGate {p : Phase} {g : Nat} (h : p.ownsGate = some g) :
    p.usesGate = some g := by
  cases p <;> first | exact h | cases h

end Phase

namespace HostScheduler

variable {maxInstant globalLimit perHostLimit : Nat} {s s' : HostScheduler} {a : Action}

/-! ## The gate of the host -/

/-- Every call uses the gate of its own host, and has a delay when it does. -/
structure OwnGate (s : HostScheduler) : Prop where
  key : ∀ t ∈ s.tasks, ∀ g, t.phase.usesGate = some g → s.polite.keys[g]? = some t.host
  delay : ∀ t ∈ s.tasks, t.phase.isPolite = true → t.delay.isSome = true

theorem OwnGate.keep (h : s.OwnGate) {i : Nat} {t t' : Task} (hi : s.tasks[i]? = some t)
    (htasks : s'.tasks = s.tasks.set i t') (hkeys : s'.polite.keys = s.polite.keys)
    (hhost : t'.host = t.host) (hdelay : t'.delay = t.delay)
    (huses : ∀ g, t'.phase.usesGate = some g → t.phase.usesGate = some g)
    (hpolite : t'.phase.isPolite = true → t.phase.isPolite = true) : s'.OwnGate where
  key := by
    intro x hx g hg
    rw [htasks] at hx
    rw [hkeys]
    rcases List.mem_or_eq_of_mem_set hx with hx | rfl
    · exact h.key x hx g hg
    · rw [hhost]
      exact h.key t (List.mem_of_getElem? hi) g (huses g hg)
  delay := by
    intro x hx hp
    rw [htasks] at hx
    rcases List.mem_or_eq_of_mem_set hx with hx | rfl
    · exact h.delay x hx hp
    · rw [hdelay]
      exact h.delay t (List.mem_of_getElem? hi) (hpolite hp)

/-- A call that is done with its gate, or goes on behind it. -/
theorem OwnGate.leave (h : s.OwnGate) {i : Nat} {t t' : Task} (hi : s.tasks[i]? = some t)
    (htasks : s'.tasks = s.tasks.set i t') (hkeys : s'.polite.keys = s.polite.keys)
    (hhost : t'.host = t.host) (hdelay : t'.delay = t.delay)
    (huses : t'.phase.usesGate = none) (hpolite : t'.phase.isPolite = false) : s'.OwnGate := by
  refine h.keep hi htasks hkeys hhost hdelay (fun g hg => ?_) fun hp => ?_
  · rw [huses] at hg
    cases hg
  · rw [hpolite] at hp
    cases hp

theorem OwnGate.append (h : s.OwnGate) {t : Task} (htasks : s'.tasks = s.tasks ++ [t])
    (hpolite : s'.polite = s.polite) (huses : t.phase.usesGate = none)
    (hdelay : t.phase.isPolite = true → t.delay.isSome = true) : s'.OwnGate where
  key := by
    intro x hx g hg
    rw [htasks] at hx
    rw [hpolite]
    rcases List.mem_append.mp hx with hx | hx
    · exact h.key x hx g hg
    · rw [List.mem_singleton.mp hx, huses] at hg
      cases hg
  delay := by
    intro x hx hp
    rw [htasks] at hx
    rcases List.mem_append.mp hx with hx | hx
    · exact h.delay x hx hp
    · rw [List.mem_singleton.mp hx] at hp ⊢
      exact hdelay hp

theorem OwnGate.politeGate (h : s.OwnGate) {i : Nat} {t : Task} (hi : s.tasks[i]? = some t)
    (hphase : t.phase = .politeGate) :
    ({ s with polite := (s.polite.getOrInsert t.host ⟨none, none⟩).2 }.setPhase i t
      (.lockGate (s.polite.getOrInsert t.host ⟨none, none⟩).1)).OwnGate where
  key := by
    intro x hx g hg
    rcases List.mem_or_eq_of_mem_set hx with hx | rfl
    · exact Registry.keys_getOrInsert (h.key x hx g hg) _ _
    · cases hg
      exact Registry.keys_getOrInsert_self _ _ _
  delay := by
    intro x hx hp
    rcases List.mem_or_eq_of_mem_set hx with hx | rfl
    · exact h.delay x hx hp
    · exact h.delay t (List.mem_of_getElem? hi) (by rw [hphase]; rfl)

theorem Steps.ownGate (h : Steps maxInstant s a s') (hown : s.OwnGate) : s'.OwnGate := by
  cases h with
  | call => exact hown.append rfl rfl rfl (fun h => nomatch h)
  | callPolite => exact hown.append rfl rfl rfl (fun _ => rfl)
  | tick => exact ⟨hown.key, hown.delay⟩
  | politeGate hi hphase => exact hown.politeGate hi hphase
  | lockGate hi hphase _ =>
    exact hown.keep hi rfl rfl rfl rfl (by rw [hphase]; exact fun _ h => h)
      (by rw [hphase]; exact id)
  | pass hi hphase _ _ _ =>
    exact hown.keep hi rfl rfl rfl rfl (by rw [hphase]; exact fun _ h => h)
      (by rw [hphase]; exact id)
  | wait hi hphase _ _ _ _ =>
    exact hown.keep hi rfl rfl rfl rfl (by rw [hphase]; exact fun _ h => h)
      (by rw [hphase]; exact id)
  | panic hi _ _ _ _ _ => exact hown.leave hi rfl rfl rfl rfl rfl rfl
  | sleep hi hphase =>
    exact hown.keep hi rfl rfl rfl rfl (by rw [hphase]; exact fun _ h => h)
      (by rw [hphase]; exact id)
  | wake hi hphase _ =>
    exact hown.keep hi rfl rfl rfl rfl (by rw [hphase]; exact fun _ h => h)
      (by rw [hphase]; exact id)
  | record hi _ => exact hown.leave hi rfl rfl rfl rfl rfl rfl
  | acquireGlobal hi _ _ => exact hown.leave hi rfl rfl rfl rfl rfl rfl
  | hostSem hi _ => exact hown.leave hi rfl rfl rfl rfl rfl rfl
  | acquireHost hi _ _ _ => exact hown.leave hi rfl rfl rfl rfl rfl rfl
  | dropGlobal hi _ => exact hown.leave hi rfl rfl rfl rfl rfl rfl
  | dropGlobalLast hi _ => exact hown.leave hi rfl rfl rfl rfl rfl rfl
  | dropHost hi _ _ => exact hown.leave hi rfl rfl rfl rfl rfl rfl
  | dropHostLast hi _ _ => exact hown.leave hi rfl rfl rfl rfl rfl rfl

/-! ## Who has a gate locked -/

/-- The mutex of the gate says that the call has it locked. -/
def GateLocked (s : HostScheduler) (g i : Nat) : Prop :=
  ∃ last, s.polite.cells[g]? = some ⟨some i, last⟩

/-- The call is where it has the gate locked. -/
def InGate (s : HostScheduler) (g i : Nat) : Prop :=
  ∃ t, s.tasks[i]? = some t ∧ t.phase.ownsGate = some g

def Exclusive (s : HostScheduler) : Prop := ∀ g i, s.GateLocked g i ↔ s.InGate g i

theorem inGate_set {i : Nat} {t t' : Task} (hi : s.tasks[i]? = some t)
    (htasks : s'.tasks = s.tasks.set i t') (g j : Nat) :
    s'.InGate g j ↔ (j = i ∧ t'.phase.ownsGate = some g) ∨ (j ≠ i ∧ s.InGate g j) := by
  obtain ⟨hlt, -⟩ := List.getElem?_eq_some_iff.mp hi
  rw [InGate, htasks]
  constructor
  · rintro ⟨x, hx, howns⟩
    rcases getElem?_set_cases hx with ⟨rfl, rfl⟩ | ⟨hne, hx⟩
    · exact .inl ⟨rfl, howns⟩
    · exact .inr ⟨hne, x, hx, howns⟩
  · rintro (⟨rfl, howns⟩ | ⟨hne, x, hx, howns⟩)
    · exact ⟨t', List.getElem?_set_self hlt, howns⟩
    · exact ⟨x, by rw [List.getElem?_set_ne (Ne.symm hne), hx], howns⟩

theorem inGate_self {i : Nat} {t : Task} (hi : s.tasks[i]? = some t) (g : Nat) :
    s.InGate g i ↔ t.phase.ownsGate = some g := by
  constructor
  · rintro ⟨x, hx, howns⟩
    rw [hi] at hx
    cases hx
    exact howns
  · intro howns
    exact ⟨t, hi, howns⟩

theorem gateLocked_set {g : Nat} {gate gate' : Gate} (hgate : s.polite.cells[g]? = some gate)
    (hpolite : s'.polite = s.polite.set g gate') (g' j : Nat) :
    s'.GateLocked g' j ↔ (g' = g ∧ gate'.owner = some j) ∨ (g' ≠ g ∧ s.GateLocked g' j) := by
  rw [GateLocked, hpolite]
  constructor
  · rintro ⟨last, hcell⟩
    rcases Registry.cells_set hcell with ⟨rfl, heq⟩ | ⟨hne, hcell⟩
    · exact .inl ⟨rfl, by rw [← heq]⟩
    · exact .inr ⟨hne, last, hcell⟩
  · rintro (⟨rfl, howner⟩ | ⟨hne, last, hcell⟩)
    · refine ⟨gate'.last, ?_⟩
      rw [Registry.cells_set_self hgate, ← howner]
    · exact ⟨last, by rw [Registry.cells_set_ne hne, hcell]⟩

theorem gateLocked_self {g : Nat} {gate : Gate} (hgate : s.polite.cells[g]? = some gate) (j : Nat) :
    s.GateLocked g j ↔ gate.owner = some j := by
  constructor
  · rintro ⟨last, hcell⟩
    rw [hgate] at hcell
    cases hcell
    rfl
  · intro howner
    exact ⟨gate.last, by rw [hgate, ← howner]⟩

/-- A call that goes on with what it has locked. -/
theorem Exclusive.keep (h : s.Exclusive) {i : Nat} {t t' : Task} (hi : s.tasks[i]? = some t)
    (htasks : s'.tasks = s.tasks.set i t') (hpolite : s'.polite = s.polite)
    (howns : t'.phase.ownsGate = t.phase.ownsGate) : s'.Exclusive := by
  intro g j
  have hlocked : s'.GateLocked g j ↔ s.GateLocked g j := by rw [GateLocked, hpolite, GateLocked]
  rw [hlocked, h g j, inGate_set hi htasks, howns, ← inGate_self hi]
  by_cases hj : j = i
  · simp [hj]
  · simp [hj]

theorem Exclusive.append (h : s.Exclusive) {t : Task} (ht : t.phase.ownsGate = none)
    (htasks : s'.tasks = s.tasks ++ [t]) (hpolite : s'.polite = s.polite) : s'.Exclusive := by
  intro g j
  have hlocked : s'.GateLocked g j ↔ s.GateLocked g j := by rw [GateLocked, hpolite, GateLocked]
  rw [hlocked, h g j, InGate, InGate, htasks]
  constructor
  · rintro ⟨x, hx, howns⟩
    obtain ⟨hlt, -⟩ := List.getElem?_eq_some_iff.mp hx
    exact ⟨x, by rw [List.getElem?_append_left hlt, hx], howns⟩
  · rintro ⟨x, hx, howns⟩
    rcases getElem?_concat_cases hx with hx | ⟨-, rfl⟩
    · exact ⟨x, hx, howns⟩
    · rw [ht] at howns
      cases howns

/-- A new gate is not locked. -/
theorem Exclusive.politeGate (h : s.Exclusive) {i : Nat} {t : Task} (hi : s.tasks[i]? = some t)
    (hphase : t.phase = .politeGate) :
    ({ s with polite := (s.polite.getOrInsert t.host ⟨none, none⟩).2 }.setPhase i t
      (.lockGate (s.polite.getOrInsert t.host ⟨none, none⟩).1)).Exclusive := by
  have hkeep :
      (s.setPhase i t (.lockGate (s.polite.getOrInsert t.host ⟨none, none⟩).1)).Exclusive :=
    h.keep hi rfl rfl (by rw [hphase]; rfl)
  intro g j
  refine Iff.trans ?_ (hkeep g j)
  constructor
  · rintro ⟨last, hcell⟩
    rcases Registry.cells_getOrInsert hcell with hcell | ⟨-, heq⟩
    · exact ⟨last, hcell⟩
    · cases heq
  · rintro ⟨last, hcell⟩
    exact ⟨last, Registry.cells_getOrInsert_of_some hcell _ _⟩

/-- A gate that was free is locked. -/
theorem Exclusive.lock (h : s.Exclusive) {i g : Nat} {t t' : Task} {last : Option Nat}
    (hi : s.tasks[i]? = some t) (hgate : s.polite.cells[g]? = some ⟨none, last⟩)
    (htasks : s'.tasks = s.tasks.set i t')
    (hpolite : s'.polite = s.polite.set g ⟨some i, last⟩)
    (hbefore : t.phase.ownsGate = none) (hafter : t'.phase.ownsGate = some g) :
    s'.Exclusive := by
  intro g' j
  rw [gateLocked_set hgate hpolite, inGate_set hi htasks, hafter, h g' j]
  have hfree : ¬ s.InGate g j := by
    rw [← h g j, gateLocked_self hgate]
    exact fun heq => nomatch heq
  have houtside : ¬ s.InGate g' i := by
    rw [inGate_self hi, hbefore]
    exact fun heq => nomatch heq
  constructor
  · rintro (⟨rfl, howner⟩ | ⟨-, hin⟩)
    · exact .inl ⟨(Option.some.inj howner).symm, rfl⟩
    · exact .inr ⟨fun hj => houtside (hj ▸ hin), hin⟩
  · rintro (⟨rfl, hg⟩ | ⟨-, hin⟩)
    · exact .inl ⟨(Option.some.inj hg).symm, rfl⟩
    · exact .inr ⟨fun hg => hfree (hg ▸ hin), hin⟩

/-- The call that has a gate locked unlocks it. -/
theorem Exclusive.unlock (h : s.Exclusive) {i g : Nat} {t t' : Task} {last : Option Nat}
    (hi : s.tasks[i]? = some t) (htasks : s'.tasks = s.tasks.set i t')
    (hpolite : s'.polite = s.polite.set g ⟨none, last⟩)
    (hbefore : t.phase.ownsGate = some g) (hafter : t'.phase.ownsGate = none) :
    s'.Exclusive := by
  intro g' j
  obtain ⟨last₀, hgate⟩ := (h g i).mpr ⟨t, hi, hbefore⟩
  rw [gateLocked_set hgate hpolite, inGate_set hi htasks, hafter, h g' j]
  have hmine : ∀ k, s.InGate g k → k = i := by
    intro k hk
    rw [← h g k, gateLocked_self hgate] at hk
    exact (Option.some.inj hk).symm
  have honly : ∀ k, s.InGate k i → k = g := by
    intro k hk
    rw [inGate_self hi, hbefore] at hk
    exact (Option.some.inj hk).symm
  constructor
  · rintro (⟨-, howner⟩ | ⟨hne, hin⟩)
    · cases howner
    · exact .inr ⟨fun hj => hne (honly g' (hj ▸ hin)), hin⟩
  · rintro (⟨-, hg⟩ | ⟨hne, hin⟩)
    · cases hg
    · exact .inr ⟨fun hg => hne (hmine j (hg ▸ hin)), hin⟩

theorem Steps.exclusive (h : Steps maxInstant s a s') (hexcl : s.Exclusive) : s'.Exclusive := by
  cases h with
  | call => exact hexcl.append rfl rfl rfl
  | callPolite => exact hexcl.append rfl rfl rfl
  | tick => exact hexcl
  | politeGate hi hphase => exact hexcl.politeGate hi hphase
  | lockGate hi hphase hgate => exact hexcl.lock hi hgate rfl rfl (by rw [hphase]; rfl) rfl
  | pass hi hphase _ _ _ => exact hexcl.keep hi rfl rfl (by rw [hphase]; rfl)
  | wait hi hphase _ _ _ _ => exact hexcl.keep hi rfl rfl (by rw [hphase]; rfl)
  | panic hi hphase _ _ _ _ => exact hexcl.unlock hi rfl rfl (by rw [hphase]; rfl) rfl
  | sleep hi hphase => exact hexcl.keep hi rfl rfl (by rw [hphase]; rfl)
  | wake hi hphase _ => exact hexcl.keep hi rfl rfl (by rw [hphase]; rfl)
  | record hi hphase => exact hexcl.unlock hi rfl rfl (by rw [hphase]; rfl) rfl
  | acquireGlobal hi hphase _ => exact hexcl.keep hi rfl rfl (by rw [hphase]; rfl)
  | hostSem hi hphase => exact hexcl.keep hi rfl rfl (by rw [hphase]; rfl)
  | acquireHost hi hphase _ _ => exact hexcl.keep hi rfl rfl (by rw [hphase]; rfl)
  | dropGlobal hi hphase => exact hexcl.keep hi rfl rfl (by rw [hphase]; rfl)
  | dropGlobalLast hi hphase => exact hexcl.keep hi rfl rfl (by rw [hphase]; rfl)
  | dropHost hi hphase _ => exact hexcl.keep hi rfl rfl (by rw [hphase]; rfl)
  | dropHostLast hi hphase _ => exact hexcl.keep hi rfl rfl (by rw [hphase]; rfl)

/-! ## Every run -/

structure Gated (s : HostScheduler) : Prop where
  own : s.OwnGate
  exclusive : s.Exclusive

theorem Gated.new (globalLimit perHostLimit : Nat) :
    (HostScheduler.new globalLimit perHostLimit).Gated where
  own := by
    constructor
    · intro t ht
      cases ht
    · intro t ht
      cases ht
  exclusive := by
    intro g i
    constructor
    · rintro ⟨last, hcell⟩
      cases hcell
    · rintro ⟨t, ht, -⟩
      cases ht

theorem Steps.gated (h : Steps maxInstant s a s') (hgated : s.Gated) : s'.Gated :=
  ⟨h.ownGate hgated.own, h.exclusive hgated.exclusive⟩

theorem inductive_gated : (scheduler maxInstant globalLimit perHostLimit).Inductive
    (fun _ => True) (fun _ s => s.Gated) where
  start := by
    intro s hs
    cases hs
    exact .new _ _
  next := by
    intro tr s a s' _ h hstep
    exact (steps_of_step hstep).gated h

end HostScheduler

end Gurted.Crawler
