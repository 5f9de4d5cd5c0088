import Gurted.Crawler.SchedulerGates

/-!
# The crawl-delay

A gate spaces the instants its calls record (`Timed`, in every run), but a call
records before it waits for its permits. So what it returns at can be later by any
amount, and two calls of a host can return at once. `honoured` is what remains: the
delay is kept in the runs in which no time passes while a call of the host, behind its
gate, waits for a permit.
-/

namespace Gurted.Crawler

open Gurted Gurted.Lib

namespace Phase

/-- Behind the gate, and not returned yet. -/
def awaitsPermits : Phase → Bool
  | .acquireGlobal => true
  | .hostSem => true
  | .acquireHost _ => true
  | _ => false

/-- The call has returned. -/
def isReturned : Phase → Bool
  | .holding _ => true
  | .globalDropped _ => true
  | .hostDropped _ => true
  | .finished => true
  | _ => false

/-- What a call with its gate locked knows of the instant it waits for. -/
def Due (now : Nat) (earliest : Nat) : Phase → Prop
  | .sleep _ wait => earliest ≤ now + wait
  | .sleeping _ deadline => earliest ≤ deadline
  | .record _ => earliest ≤ now
  | _ => True

theorem Due.mono {now now' earliest : Nat} {p : Phase} (h : p.Due now earliest)
    (hnow : now ≤ now') : p.Due now' earliest := by
  cases p with
  | sleep g wait => exact Nat.le_trans h (Nat.add_le_add_right hnow wait)
  | record g => exact Nat.le_trans h hnow
  | _ => exact h

end Phase

namespace HostScheduler

variable {maxInstant globalLimit perHostLimit : Nat} {s s' : HostScheduler} {a : Action}

/-- Any two calls of `acquire_polite` for the host with the delay that have returned
did so at least the delay apart. -/
def Honoured (host : Str) (delay : Nat) (s : HostScheduler) : Prop :=
  ∀ (i j : Nat) (t t' : Task), i ≠ j → s.tasks[i]? = some t → s.tasks[j]? = some t' →
    t.host = host → t'.host = host → t.delay = some delay → t'.delay = some delay →
    ∀ r r', t.returned = some r → t'.returned = some r' → r + delay ≤ r' ∨ r' + delay ≤ r

/-- No time passes while a call for the host that had a delay waits for a permit. -/
def Prompt (host : Str) (s : HostScheduler) : Action → Prop
  | .tick n => 0 < n → ∀ t ∈ s.tasks, t.host = host → t.delay.isSome = true →
      t.phase.awaitsPermits = false
  | _ => True

instance (host : Str) (s : HostScheduler) : (a : Action) → Decidable (s.Prompt host a)
  | .tick n => inferInstanceAs (Decidable (0 < n → ∀ t ∈ s.tasks, t.host = host →
      t.delay.isSome = true → t.phase.awaitsPermits = false))
  | .call _ _ => isTrue trivial
  | .move _ => isTrue trivial
  | .dropGlobal _ => isTrue trivial
  | .dropHost _ => isTrue trivial

/-! ## What the gates record -/

/-- The timestamp in a gate. -/
def lastOf (s : HostScheduler) (g : Nat) : Option Nat := (s.polite.cells[g]?).bind Gate.last

/-- A timestamp is not in the future, a call goes on only when its delay after it is
over, and the instants the calls of a host recorded are spaced. -/
structure Timed (s : HostScheduler) : Prop where
  last_le : ∀ g p, s.lastOf g = some p → p ≤ s.now
  due : ∀ (i : Nat) (t : Task) g delay p, s.tasks[i]? = some t → t.phase.ownsGate = some g →
    t.delay = some delay → s.lastOf g = some p → t.phase.Due s.now (p + delay)
  recorded : ∀ (i : Nat) (t : Task) r, s.tasks[i]? = some t → t.recorded = some r →
    ∃ g p, s.polite.keys[g]? = some t.host ∧ s.lastOf g = some p ∧ r ≤ p
  apart : ∀ (i j : Nat) (t t' : Task) delay delay' r r', i ≠ j →
    s.tasks[i]? = some t → s.tasks[j]? = some t' → t.host = t'.host →
    t.delay = some delay → t'.delay = some delay' →
    t.recorded = some r → t'.recorded = some r' → r + delay' ≤ r' ∨ r' + delay ≤ r

theorem lastOf_set {g : Nat} {gate gate' : Gate} (hgate : s.polite.cells[g]? = some gate)
    (hpolite : s'.polite = s.polite.set g gate') (g' : Nat) :
    s'.lastOf g' = if g' = g then gate'.last else s.lastOf g' := by
  rw [lastOf, lastOf, hpolite]
  split
  · next heq => rw [heq, Registry.cells_set_self hgate, Option.bind_some]
  · next hne => rw [Registry.cells_set_ne hne]

/-- A new gate has no timestamp. -/
theorem lastOf_getOrInsert {host : Str}
    (hpolite : s'.polite = (s.polite.getOrInsert host ⟨none, none⟩).2) (g : Nat) :
    s'.lastOf g = s.lastOf g := by
  rw [lastOf, lastOf, hpolite]
  cases hold : s.polite.cells[g]? with
  | some gate => rw [Registry.cells_getOrInsert_of_some hold]
  | none =>
    cases hnew : (s.polite.getOrInsert host ⟨none, none⟩).2.cells[g]? with
    | none => rfl
    | some gate =>
      rcases Registry.cells_getOrInsert hnew with h | ⟨-, rfl⟩
      · rw [hold] at h
        cases h
      · rfl

/-- A call that goes on and records nothing. -/
theorem Timed.keep (h : s.Timed) {i : Nat} {t t' : Task} (hi : s.tasks[i]? = some t)
    (htasks : s'.tasks = s.tasks.set i t') (hnow : s'.now = s.now)
    (hkeys : ∀ (g : Nat) k, s.polite.keys[g]? = some k → s'.polite.keys[g]? = some k)
    (hlast : ∀ g, s'.lastOf g = s.lastOf g) (hhost : t'.host = t.host)
    (hdelay : t'.delay = t.delay) (hrecorded : t'.recorded = t.recorded)
    (hdue : ∀ g delay p, t'.phase.ownsGate = some g → t.delay = some delay →
      s.lastOf g = some p → t'.phase.Due s.now (p + delay)) : s'.Timed where
  last_le := by
    intro g p hp
    rw [hlast] at hp
    rw [hnow]
    exact h.last_le g p hp
  due := by
    intro j x g delay p hj howns hx hp
    rw [htasks] at hj
    rw [hlast] at hp
    rw [hnow]
    rcases getElem?_set_cases hj with ⟨-, rfl⟩ | ⟨-, hj⟩
    · rw [hdelay] at hx
      exact hdue g delay p howns hx hp
    · exact h.due j x g delay p hj howns hx hp
  recorded := by
    intro j x r hj hr
    have hold : ∃ y, s.tasks[j]? = some y ∧ y.recorded = some r ∧ y.host = x.host := by
      rw [htasks] at hj
      rcases getElem?_set_cases hj with ⟨rfl, rfl⟩ | ⟨-, hj⟩
      · exact ⟨t, hi, hrecorded ▸ hr, hhost.symm⟩
      · exact ⟨x, hj, hr, rfl⟩
    obtain ⟨y, hy, hyr, hyhost⟩ := hold
    obtain ⟨g, p, hkey, hp, hle⟩ := h.recorded j y r hy hyr
    rw [hyhost] at hkey
    exact ⟨g, p, hkeys g _ hkey, by rw [hlast]; exact hp, hle⟩
  apart := by
    have hold : ∀ {j : Nat} {x : Task}, s'.tasks[j]? = some x → ∃ y, s.tasks[j]? = some y ∧
        y.host = x.host ∧ y.delay = x.delay ∧ y.recorded = x.recorded := by
      intro j x hj
      rw [htasks] at hj
      rcases getElem?_set_cases hj with ⟨rfl, rfl⟩ | ⟨-, hj⟩
      · exact ⟨t, hi, hhost.symm, hdelay.symm, hrecorded.symm⟩
      · exact ⟨x, hj, rfl, rfl, rfl⟩
    intro j k x x' delay delay' r r' hne hj hk hhosts hd hd' hr hr'
    obtain ⟨y, hy, hyhost, hydelay, hyrec⟩ := hold hj
    obtain ⟨y', hy', hyhost', hydelay', hyrec'⟩ := hold hk
    exact h.apart j k y y' delay delay' r r' hne hy hy' (by rw [hyhost, hyhost', hhosts])
      (hydelay.trans hd) (hydelay'.trans hd') (hyrec.trans hr) (hyrec'.trans hr')

/-- A call that goes on with no gate locked. -/
theorem Timed.free (h : s.Timed) {i : Nat} {t t' : Task} (hi : s.tasks[i]? = some t)
    (htasks : s'.tasks = s.tasks.set i t') (hnow : s'.now = s.now)
    (hkeys : ∀ (g : Nat) k, s.polite.keys[g]? = some k → s'.polite.keys[g]? = some k)
    (hlast : ∀ g, s'.lastOf g = s.lastOf g) (hhost : t'.host = t.host)
    (hdelay : t'.delay = t.delay) (hrecorded : t'.recorded = t.recorded)
    (howns : t'.phase.ownsGate = none) : s'.Timed := by
  refine h.keep hi htasks hnow hkeys hlast hhost hdelay hrecorded fun g delay p hg _ _ => ?_
  rw [howns] at hg
  cases hg

/-- A gate that is locked or unlocked keeps its timestamp. -/
theorem lastOf_owner {g : Nat} {owner owner' last : Option Nat}
    (hgate : s.polite.cells[g]? = some ⟨owner, last⟩)
    (hpolite : s'.polite = s.polite.set g ⟨owner', last⟩) (g' : Nat) :
    s'.lastOf g' = s.lastOf g' := by
  rw [lastOf_set hgate hpolite]
  split
  · next heq => rw [heq, lastOf, hgate, Option.bind_some]
  · rfl

theorem Timed.append (h : s.Timed) {t : Task} (htasks : s'.tasks = s.tasks ++ [t])
    (hnow : s'.now = s.now) (hpolite : s'.polite = s.polite) (howns : t.phase.ownsGate = none)
    (hrecorded : t.recorded = none) : s'.Timed := by
  have hlast : ∀ g, s'.lastOf g = s.lastOf g := by
    intro g
    rw [lastOf, hpolite, lastOf]
  constructor
  · intro g p hp
    rw [hnow]
    exact h.last_le g p (hlast g ▸ hp)
  · intro j x g delay p hj hx hd hp
    rw [htasks] at hj
    rw [hnow]
    rcases getElem?_concat_cases hj with hj | ⟨-, rfl⟩
    · exact h.due j x g delay p hj hx hd (hlast g ▸ hp)
    · rw [howns] at hx
      cases hx
  · intro j x r hj hr
    rw [htasks] at hj
    rcases getElem?_concat_cases hj with hj | ⟨-, rfl⟩
    · obtain ⟨g, p, hkey, hp, hle⟩ := h.recorded j x r hj hr
      exact ⟨g, p, by rw [hpolite]; exact hkey, by rw [hlast]; exact hp, hle⟩
    · rw [hrecorded] at hr
      cases hr
  · intro j k x x' delay delay' r r' hne hj hk hhosts hd hd' hr hr'
    rw [htasks] at hj hk
    rcases getElem?_concat_cases hj with hj | ⟨-, rfl⟩
    · rcases getElem?_concat_cases hk with hk | ⟨-, rfl⟩
      · exact h.apart j k x x' delay delay' r r' hne hj hk hhosts hd hd' hr hr'
      · rw [hrecorded] at hr'
        cases hr'
    · rw [hrecorded] at hr
      cases hr

theorem Timed.tick (h : s.Timed) (n : Nat) :
    ({ s with now := s.now + n } : HostScheduler).Timed where
  last_le := by
    intro g p hp
    exact Nat.le_add_right_of_le (h.last_le g p hp)
  due := by
    intro i t g delay p hi howns hd hp
    exact (h.due i t g delay p hi howns hd hp).mono (Nat.le_add_right _ _)
  recorded := h.recorded
  apart := h.apart

/-- **The gate**: what a call records is its delay or more after what the calls of
the host recorded before it. -/
theorem Timed.record (h : s.Timed) (hgated : s.Gated) {i g : Nat} {t : Task}
    (hi : s.tasks[i]? = some t) (hphase : t.phase = .record g) :
    ({ s with polite := s.polite.set g ⟨none, some s.now⟩ }.setTask i
      { t with phase := .acquireGlobal, recorded := some s.now }).Timed := by
  have howns : t.phase.ownsGate = some g := by
    rw [hphase]
    rfl
  have hkey : s.polite.keys[g]? = some t.host :=
    hgated.own.key t (List.mem_of_getElem? hi) g (Phase.usesGate_of_ownsGate howns)
  obtain ⟨last, hgate⟩ := (hgated.exclusive g i).mpr ⟨t, hi, howns⟩
  have hlast : ∀ s' : HostScheduler, s'.polite = s.polite.set g ⟨none, some s.now⟩ →
      ∀ g', s'.lastOf g' = if g' = g then some s.now else s.lastOf g' :=
    fun s' hpolite => lastOf_set hgate hpolite
  -- what the other calls of the host have recorded is over for this one
  have hbefore : ∀ (j : Nat) (x : Task) delay r, s.tasks[j]? = some x → x.host = t.host →
      t.delay = some delay → x.recorded = some r → r + delay ≤ s.now := by
    intro j x delay r hj hhost hd hr
    obtain ⟨g', p, hkey', hp, hle⟩ := h.recorded j x r hj hr
    rw [hhost] at hkey'
    rw [s.polite.eq_of_key hkey' hkey] at hp
    have hdue := h.due i t g delay p hi howns hd hp
    rw [hphase] at hdue
    exact Nat.le_trans (Nat.add_le_add_right hle delay) hdue
  constructor
  · intro g' p hp
    rw [hlast _ rfl] at hp
    split at hp
    · cases hp
      exact Nat.le_refl _
    · exact h.last_le g' p hp
  · intro j x g' delay p hj hx hd hp
    rcases getElem?_set_cases hj with ⟨-, rfl⟩ | ⟨hne, hj⟩
    · cases hx
    · rw [hlast _ rfl, if_neg] at hp
      · exact h.due j x g' delay p hj hx hd hp
      · -- the gate has no other owner
        rintro rfl
        obtain ⟨last', hgate'⟩ := (hgated.exclusive g' j).mpr ⟨x, hj, hx⟩
        rw [hgate] at hgate'
        cases hgate'
        exact hne rfl
  · intro j x r hj hr
    rcases getElem?_set_cases hj with ⟨-, rfl⟩ | ⟨-, hj⟩
    · cases hr
      exact ⟨g, s.now, hkey, by rw [hlast _ rfl, if_pos rfl], Nat.le_refl _⟩
    · obtain ⟨g', p, hkey', hp, hle⟩ := h.recorded j x r hj hr
      by_cases hg : g' = g
      · exact ⟨g', s.now, hkey', by rw [hlast _ rfl, if_pos hg],
          Nat.le_trans hle (h.last_le g' p hp)⟩
      · exact ⟨g', p, hkey', by rw [hlast _ rfl, if_neg hg]; exact hp, hle⟩
  · intro j k x x' delay delay' r r' hne hj hk hhosts hd hd' hr hr'
    rcases getElem?_set_cases hj with ⟨rfl, rfl⟩ | ⟨-, hjold⟩
    · rcases getElem?_set_cases hk with ⟨rfl, -⟩ | ⟨-, hkold⟩
      · exact absurd rfl hne
      · cases hr
        exact .inr (hbefore k x' delay r' hkold hhosts.symm hd hr')
    · rcases getElem?_set_cases hk with ⟨rfl, rfl⟩ | ⟨-, hkold⟩
      · cases hr'
        exact .inl (hbefore j x delay' r hjold hhosts hd' hr)
      · exact h.apart j k x x' delay delay' r r' hne hjold hkold hhosts hd hd' hr hr'

theorem Steps.timed (h : Steps maxInstant s a s') (hgated : s.Gated) (htimed : s.Timed) :
    s'.Timed := by
  cases h with
  | call => exact htimed.append rfl rfl rfl rfl rfl
  | callPolite => exact htimed.append rfl rfl rfl rfl rfl
  | tick => exact htimed.tick _
  | politeGate hi _ =>
    exact htimed.free hi rfl rfl (fun _ _ hk => Registry.keys_getOrInsert hk _ _)
      (lastOf_getOrInsert rfl) rfl rfl rfl rfl
  | lockGate hi _ hgate =>
    exact htimed.keep hi rfl rfl (fun _ _ hk => hk) (lastOf_owner hgate rfl) rfl rfl rfl
      fun _ _ _ _ _ _ => trivial
  | @pass i g delay t gate hi _ hdelay hgate hdue =>
    refine htimed.keep hi rfl rfl (fun _ _ hk => hk) (fun _ => rfl) rfl rfl rfl
      fun g' delay' p hg hd hp => ?_
    cases hg
    rw [hdelay] at hd
    cases hd
    rw [lastOf, hgate, Option.bind_some] at hp
    exact hdue p hp
  | @wait i g delay prev t gate hi _ hdelay hgate hlast hnow =>
    refine htimed.keep hi rfl rfl (fun _ _ hk => hk) (fun _ => rfl) rfl rfl rfl
      fun g' delay' p hg hd hp => ?_
    cases hg
    rw [hdelay] at hd
    cases hd
    rw [lastOf, hgate, Option.bind_some, hlast] at hp
    cases hp
    show prev + delay ≤ s.now + (prev + delay - s.now)
    omega
  | panic hi _ _ hgate _ _ =>
    exact htimed.free hi rfl rfl (fun _ _ hk => hk) (lastOf_owner hgate rfl) rfl rfl rfl rfl
  | @sleep i g wait t hi hphase =>
    refine htimed.keep hi rfl rfl (fun _ _ hk => hk) (fun _ => rfl) rfl rfl rfl
      fun g' delay p hg hd hp => ?_
    cases hg
    have hdue := htimed.due i t g delay p hi (by rw [hphase]; rfl) hd hp
    rw [hphase] at hdue
    exact hdue
  | @wake i g deadline t hi hphase hnow =>
    refine htimed.keep hi rfl rfl (fun _ _ hk => hk) (fun _ => rfl) rfl rfl rfl
      fun g' delay p hg hd hp => ?_
    cases hg
    have hdue := htimed.due i t g delay p hi (by rw [hphase]; rfl) hd hp
    rw [hphase] at hdue
    exact Nat.le_trans hdue hnow
  | record hi hphase => exact htimed.record hgated hi hphase
  | acquireGlobal hi _ _ =>
    exact htimed.free hi rfl rfl (fun _ _ hk => hk) (fun _ => rfl) rfl rfl rfl rfl
  | hostSem hi _ =>
    exact htimed.free hi rfl rfl (fun _ _ hk => hk) (fun _ => rfl) rfl rfl rfl rfl
  | acquireHost hi _ _ _ =>
    exact htimed.free hi rfl rfl (fun _ _ hk => hk) (fun _ => rfl) rfl rfl rfl rfl
  | dropGlobal hi _ =>
    exact htimed.free hi rfl rfl (fun _ _ hk => hk) (fun _ => rfl) rfl rfl rfl rfl
  | dropGlobalLast hi _ =>
    exact htimed.free hi rfl rfl (fun _ _ hk => hk) (fun _ => rfl) rfl rfl rfl rfl
  | dropHost hi _ _ =>
    exact htimed.free hi rfl rfl (fun _ _ hk => hk) (fun _ => rfl) rfl rfl rfl rfl
  | dropHostLast hi _ _ =>
    exact htimed.free hi rfl rfl (fun _ _ hk => hk) (fun _ => rfl) rfl rfl rfl rfl

/-! ## Calls that return when they leave their gate -/

/-- What holds for the calls for a host when no time passes behind its gate: who waits
for a permit has recorded this instant, and who has returned did so at the instant it
recorded. -/
structure OnTime (host : Str) (s : HostScheduler) : Prop where
  waits : ∀ t ∈ s.tasks, t.host = host → t.delay.isSome = true →
    t.phase.awaitsPermits = true → t.recorded = some s.now
  returned : ∀ t ∈ s.tasks, t.host = host → t.delay.isSome = true → ∀ r, t.returned = some r →
    t.recorded = some r ∧ t.phase.isReturned = true

variable {host : Str}

theorem OnTime.keep (h : s.OnTime host) {i : Nat} {t t' : Task} (hi : s.tasks[i]? = some t)
    (htasks : s'.tasks = s.tasks.set i t') (hnow : s'.now = s.now) (hhost : t'.host = t.host)
    (hdelay : t'.delay = t.delay) (hrecorded : t'.recorded = t.recorded)
    (hreturned : t'.returned = t.returned)
    (hwaits : t'.phase.awaitsPermits = true → t.phase.awaitsPermits = true)
    (hdone : t.phase.isReturned = true → t'.phase.isReturned = true) : s'.OnTime host where
  waits := by
    intro x hx hxhost hd hp
    rw [htasks] at hx
    rw [hnow]
    rcases List.mem_or_eq_of_mem_set hx with hx | rfl
    · exact h.waits x hx hxhost hd hp
    · rw [hhost] at hxhost
      rw [hdelay] at hd
      rw [hrecorded]
      exact h.waits t (List.mem_of_getElem? hi) hxhost hd (hwaits hp)
  returned := by
    intro x hx hxhost hd r hr
    rw [htasks] at hx
    rcases List.mem_or_eq_of_mem_set hx with hx | rfl
    · exact h.returned x hx hxhost hd r hr
    · rw [hhost] at hxhost
      rw [hdelay] at hd
      rw [hreturned] at hr
      rw [hrecorded]
      obtain ⟨hrec, hp⟩ := h.returned t (List.mem_of_getElem? hi) hxhost hd r hr
      exact ⟨hrec, hdone hp⟩

theorem OnTime.append (h : s.OnTime host) {t : Task} (htasks : s'.tasks = s.tasks ++ [t])
    (hnow : s'.now = s.now)
    (hwaits : t.delay.isSome = true → t.phase.awaitsPermits = false)
    (hreturned : t.returned = none) : s'.OnTime host where
  waits := by
    intro x hx hxhost hd hp
    rw [htasks] at hx
    rw [hnow]
    rcases List.mem_append.mp hx with hx | hx
    · exact h.waits x hx hxhost hd hp
    · rw [List.mem_singleton.mp hx] at hd hp
      rw [hwaits hd] at hp
      cases hp
  returned := by
    intro x hx hxhost hd r hr
    rw [htasks] at hx
    rcases List.mem_append.mp hx with hx | hx
    · exact h.returned x hx hxhost hd r hr
    · rw [List.mem_singleton.mp hx, hreturned] at hr
      cases hr

theorem OnTime.tick (h : s.OnTime host) {n : Nat} (hprompt : s.Prompt host (.tick n)) :
    ({ s with now := s.now + n } : HostScheduler).OnTime host where
  waits := by
    intro t ht hhost hd hp
    by_cases hn : n = 0
    · rw [hn]
      exact h.waits t ht hhost hd hp
    · rw [hprompt (Nat.pos_of_ne_zero hn) t ht hhost hd] at hp
      cases hp
  returned := h.returned

/-- A call leaves its gate. -/
theorem OnTime.record (h : s.OnTime host) {i g : Nat} {t : Task} (hi : s.tasks[i]? = some t)
    (hphase : t.phase = .record g) :
    ({ s with polite := s.polite.set g ⟨none, some s.now⟩ }.setTask i
      { t with phase := .acquireGlobal, recorded := some s.now }).OnTime host where
  waits := by
    intro x hx hhost hd hp
    rcases List.mem_or_eq_of_mem_set hx with hx | rfl
    · exact h.waits x hx hhost hd hp
    · rfl
  returned := by
    intro x hx hhost hd r hr
    rcases List.mem_or_eq_of_mem_set hx with hx | rfl
    · exact h.returned x hx hhost hd r hr
    · obtain ⟨-, hp⟩ := h.returned t (List.mem_of_getElem? hi) hhost hd r hr
      rw [hphase] at hp
      cases hp

/-- A call returns. -/
theorem OnTime.acquireHost (h : s.OnTime host) {i m free : Nat} {t : Task}
    (hi : s.tasks[i]? = some t) (hphase : t.phase = .acquireHost m) :
    ({ s with hosts := s.hosts.set m (free - 1) }.setTask i
      { t with phase := .holding m, returned := some s.now }).OnTime host where
  waits := by
    intro x hx hhost hd hp
    rcases List.mem_or_eq_of_mem_set hx with hx | rfl
    · exact h.waits x hx hhost hd hp
    · cases hp
  returned := by
    intro x hx hhost hd r hr
    rcases List.mem_or_eq_of_mem_set hx with hx | rfl
    · exact h.returned x hx hhost hd r hr
    · cases hr
      exact ⟨h.waits t (List.mem_of_getElem? hi) hhost hd (by rw [hphase]; rfl), rfl⟩

theorem Steps.onTime (h : Steps maxInstant s a s') (hprompt : s.Prompt host a)
    (htime : s.OnTime host) : s'.OnTime host := by
  cases h with
  | call => exact htime.append rfl rfl (fun h => nomatch h) rfl
  | callPolite => exact htime.append rfl rfl (fun _ => rfl) rfl
  | tick => exact htime.tick hprompt
  | politeGate hi hphase =>
    exact htime.keep hi rfl rfl rfl rfl rfl rfl (fun h => nomatch h)
      (by rw [hphase]; exact fun h => nomatch h)
  | lockGate hi hphase _ =>
    exact htime.keep hi rfl rfl rfl rfl rfl rfl (fun h => nomatch h)
      (by rw [hphase]; exact fun h => nomatch h)
  | pass hi hphase _ _ _ =>
    exact htime.keep hi rfl rfl rfl rfl rfl rfl (fun h => nomatch h)
      (by rw [hphase]; exact fun h => nomatch h)
  | wait hi hphase _ _ _ _ =>
    exact htime.keep hi rfl rfl rfl rfl rfl rfl (fun h => nomatch h)
      (by rw [hphase]; exact fun h => nomatch h)
  | panic hi hphase _ _ _ _ =>
    exact htime.keep hi rfl rfl rfl rfl rfl rfl (fun h => nomatch h)
      (by rw [hphase]; exact fun h => nomatch h)
  | sleep hi hphase =>
    exact htime.keep hi rfl rfl rfl rfl rfl rfl (fun h => nomatch h)
      (by rw [hphase]; exact fun h => nomatch h)
  | wake hi hphase _ =>
    exact htime.keep hi rfl rfl rfl rfl rfl rfl (fun h => nomatch h)
      (by rw [hphase]; exact fun h => nomatch h)
  | record hi hphase => exact htime.record hi hphase
  | acquireGlobal hi hphase _ =>
    exact htime.keep hi rfl rfl rfl rfl rfl rfl (fun _ => by rw [hphase]; rfl)
      (by rw [hphase]; exact fun h => nomatch h)
  | hostSem hi hphase =>
    exact htime.keep hi rfl rfl rfl rfl rfl rfl (fun _ => by rw [hphase]; rfl)
      (by rw [hphase]; exact fun h => nomatch h)
  | acquireHost hi hphase _ _ => exact htime.acquireHost hi hphase
  | dropGlobal hi _ =>
    exact htime.keep hi rfl rfl rfl rfl rfl rfl (fun h => nomatch h) (fun _ => rfl)
  | dropGlobalLast hi _ =>
    exact htime.keep hi rfl rfl rfl rfl rfl rfl (fun h => nomatch h) (fun _ => rfl)
  | dropHost hi _ _ =>
    exact htime.keep hi rfl rfl rfl rfl rfl rfl (fun h => nomatch h) (fun _ => rfl)
  | dropHostLast hi _ _ =>
    exact htime.keep hi rfl rfl rfl rfl rfl rfl (fun h => nomatch h) (fun _ => rfl)

/-! ## The delay between returns -/

theorem inductive_onTime (host : Str) :
    ((scheduler maxInstant globalLimit perHostLimit).restrict (Prompt host)).Inductive
      (fun _ => True) (fun _ s => s.Gated ∧ s.Timed ∧ s.OnTime host) where
  start := by
    intro s hs
    cases hs
    refine ⟨.new _ _, ⟨?_, ?_, ?_, ?_⟩, ⟨?_, ?_⟩⟩
    · intro g p hp
      cases hp
    · intro i t g delay p hi
      cases hi
    · intro i t r hi
      cases hi
    · intro i j t t' delay delay' r r' _ hi
      cases hi
    · intro t ht
      cases ht
    · intro t ht
      cases ht
  next := by
    rintro tr s a s' _ ⟨hgated, htimed, htime⟩ ⟨hprompt, hstep⟩
    have hsteps := steps_of_step hstep
    exact ⟨hsteps.gated hgated, hsteps.timed hgated htimed, hsteps.onTime hprompt htime⟩

/-- **The crawl-delay is kept** in every run in which no time passes while a call for
the host, behind its gate, waits for a permit. -/
theorem honoured {tr : List Action}
    (h : ((scheduler maxInstant globalLimit perHostLimit).restrict (Prompt host)).Run tr s)
    (delay : Nat) : s.Honoured host delay := by
  obtain ⟨-, htimed, htime⟩ := h.invariant (inductive_onTime host) fun _ _ => trivial
  intro i j t t' hne hi hj hhost hhost' hd hd' r r' hr hr'
  have hrec := htime.returned t (List.mem_of_getElem? hi) hhost (by rw [hd]; rfl) r hr
  have hrec' := htime.returned t' (List.mem_of_getElem? hj) hhost' (by rw [hd']; rfl) r' hr'
  exact htimed.apart i j t t' delay delay r r' hne hi hj (hhost.trans hhost'.symm) hd hd' hrec.1
    hrec'.1

/-- Two calls for `a` with permits to spare, the second one asleep in the gate. -/
def spaced : List Action :=
  [.call "a".toList (some 100), .call "a".toList (some 100), .move 0, .move 1, .move 0, .move 0,
    .move 0, .move 0, .move 0, .move 0, .tick 40, .move 1, .move 1, .move 1, .tick 60, .move 1,
    .move 1, .move 1, .move 1, .move 1]

theorem honoured_spaced :
    ((spaced.foldlM (Lts.guarded (Prompt "a".toList) (step 1000)) (.new 2 2)).get
      (by decide)).Honoured "a".toList 100 :=
  honoured (Lts.restrict_run_of_foldlM (Option.some_get (show (spaced.foldlM
    (Lts.guarded (Prompt "a".toList) (step 1000)) (.new 2 2)).isSome by decide)).symm) 100

/-- Two calls for `b` hold the global permits. Two calls for `a`, with a delay of 100,
pass their gate at 0 and 100, and both return at 100 when the permits are dropped. -/
def contended : List Action :=
  [.call "b".toList none, .call "b".toList none, .move 0, .move 0, .move 0, .move 1, .move 1,
    .move 1, .call "a".toList (some 100), .call "a".toList (some 100),
    .move 2, .move 2, .move 2, .move 2, .tick 100, .move 3, .move 3, .move 3, .move 3,
    .dropGlobal 0, .dropHost 0, .dropGlobal 1, .dropHost 1,
    .move 2, .move 2, .move 2, .move 3, .move 3, .move 3]

/-- The delay is not kept in every run. -/
theorem not_honoured :
    ¬ ∀ (maxInstant globalLimit perHostLimit : Nat) (tr : List Action) (s : HostScheduler),
        (scheduler maxInstant globalLimit perHostLimit).Run tr s →
        ∀ host delay, s.Honoured host delay := by
  intro h
  have hrun := Lts.run_get (show (contended.foldlM (step 1000) (.new 2 2)).isSome by decide)
  have hspaced := h 1000 2 2 contended _ hrun "a".toList 100 2 3
    ⟨"a".toList, some 100, .holding 1, some 0, some 100⟩
    ⟨"a".toList, some 100, .holding 1, some 100, some 100⟩
    (by decide) (by decide) (by decide) rfl rfl rfl rfl 100 100 rfl rfl
  omega

end HostScheduler

end Gurted.Crawler
