import Gurted.Crawler.RobotsGroups
import Gurted.Crawler.Scheduler

/-!
# Delays from robots.txt files

`parse` reads the delays, `crawl_delay` hands them out and `acquire_polite` waits for
them. `noPanic_iff` is about the three together: which values and which instants make
one of them panic, in every run.
-/

namespace Gurted.Crawler

open Gurted Gurted.Lib Float.Model

/-! ## Panics of the scheduler -/

namespace HostScheduler

variable {maxInstant i : Nat} {s s' : HostScheduler} {a : Action}

/-- A call has panicked. -/
def Panicked (s : HostScheduler) : Prop := ∃ t ∈ s.tasks, t.phase = .panicked

/-- The call `i` has its gate locked, and the instant recorded there plus its delay is no
`Instant`. -/
def Overflows (maxInstant : Nat) (s : HostScheduler) (i : Nat) : Prop :=
  ∃ t g gate prev delay, s.tasks[i]? = some t ∧ t.phase = .readGate g ∧ t.delay = some delay ∧
    s.polite.cells[g]? = some gate ∧ gate.last = some prev ∧ maxInstant < prev + delay

/-- What a step does to the calls: it leaves them, starts one, or moves one that has not
panicked. -/
theorem Steps.tasks_cases (h : Steps maxInstant s a s') :
    s'.tasks = s.tasks ∨ (∃ t, t.phase ≠ .panicked ∧ s'.tasks = s.tasks ++ [t]) ∨
      ∃ i t t', s.tasks[i]? = some t ∧ t.phase ≠ .panicked ∧ s'.tasks = s.tasks.set i t' ∧
        (t'.phase = .panicked → a = .move i ∧ Overflows maxInstant s i) := by
  cases h with
  | call => exact .inr (.inl ⟨_, by simp, rfl⟩)
  | callPolite => exact .inr (.inl ⟨_, by simp, rfl⟩)
  | tick => exact .inl rfl
  | @panic i g delay prev t gate hi hphase hdelay hgate hlast hover =>
    exact .inr (.inr ⟨i, t, _, hi, by simp [hphase], rfl,
      fun _ => ⟨rfl, t, g, gate, prev, delay, hi, hphase, hdelay, hgate, hlast, hover⟩⟩)
  | politeGate hi hphase => exact .inr (.inr ⟨_, _, _, hi, by simp [hphase], rfl, nofun⟩)
  | lockGate hi hphase => exact .inr (.inr ⟨_, _, _, hi, by simp [hphase], rfl, nofun⟩)
  | pass hi hphase => exact .inr (.inr ⟨_, _, _, hi, by simp [hphase], rfl, nofun⟩)
  | wait hi hphase => exact .inr (.inr ⟨_, _, _, hi, by simp [hphase], rfl, nofun⟩)
  | sleep hi hphase => exact .inr (.inr ⟨_, _, _, hi, by simp [hphase], rfl, nofun⟩)
  | wake hi hphase => exact .inr (.inr ⟨_, _, _, hi, by simp [hphase], rfl, nofun⟩)
  | record hi hphase => exact .inr (.inr ⟨_, _, _, hi, by simp [hphase], rfl, nofun⟩)
  | acquireGlobal hi hphase => exact .inr (.inr ⟨_, _, _, hi, by simp [hphase], rfl, nofun⟩)
  | hostSem hi hphase => exact .inr (.inr ⟨_, _, _, hi, by simp [hphase], rfl, nofun⟩)
  | acquireHost hi hphase => exact .inr (.inr ⟨_, _, _, hi, by simp [hphase], rfl, nofun⟩)
  | dropGlobal hi hphase => exact .inr (.inr ⟨_, _, _, hi, by simp [hphase], rfl, nofun⟩)
  | dropGlobalLast hi hphase => exact .inr (.inr ⟨_, _, _, hi, by simp [hphase], rfl, nofun⟩)
  | dropHost hi hphase => exact .inr (.inr ⟨_, _, _, hi, by simp [hphase], rfl, nofun⟩)
  | dropHostLast hi hphase => exact .inr (.inr ⟨_, _, _, hi, by simp [hphase], rfl, nofun⟩)

/-- The call that reads such a gate panics. -/
theorem panicked_of_overflows (h : Overflows maxInstant s i)
    (hstep : s.step maxInstant (.move i) = some s') : s'.Panicked := by
  obtain ⟨t, g, gate, prev, delay, hi, hphase, hdelay, hgate, hlast, hover⟩ := h
  obtain ⟨hlt, -⟩ := List.getElem?_eq_some_iff.mp hi
  simp only [step, hi, Option.bind_some, move, hphase, hgate, hdelay, readGate, hlast, hover,
    if_true, Option.some.injEq] at hstep
  rw [← hstep]
  exact ⟨_, List.mem_set hlt _, rfl⟩

/-- **One step** panics only where an instant overflows, and a panic stays. -/
theorem panicked_step_iff (h : s.step maxInstant a = some s') :
    s'.Panicked ↔ s.Panicked ∨ ∃ i, a = .move i ∧ Overflows maxInstant s i := by
  constructor
  · rintro ⟨x, hx, hpanic⟩
    rcases (steps_of_step h).tasks_cases with heq | ⟨t, ht, heq⟩ | ⟨i, t, t', hi, ht, heq, hover⟩
    · exact .inl ⟨x, heq ▸ hx, hpanic⟩
    · rw [heq, List.mem_append, List.mem_singleton] at hx
      rcases hx with hx | rfl
      · exact .inl ⟨x, hx, hpanic⟩
      · exact absurd hpanic ht
    · rw [heq] at hx
      rcases List.mem_or_eq_of_mem_set hx with hx | rfl
      · exact .inl ⟨x, hx, hpanic⟩
      · exact .inr ⟨i, hover hpanic⟩
  · rintro (⟨x, hx, hpanic⟩ | ⟨i, rfl, hover⟩)
    · rcases (steps_of_step h).tasks_cases with heq | ⟨t, ht, heq⟩ | ⟨i, t, t', hi, ht, heq, -⟩
      · exact ⟨x, heq ▸ hx, hpanic⟩
      · exact ⟨x, heq ▸ List.mem_append_left _ hx, hpanic⟩
      · -- the panicked call is another one
        obtain ⟨j, hj⟩ := List.mem_iff_getElem?.mp hx
        have hne : i ≠ j := by
          rintro rfl
          rw [hi] at hj
          cases hj
          exact ht hpanic
        exact ⟨x, heq ▸ List.mem_of_getElem? (by rw [List.getElem?_set_ne hne, hj]), hpanic⟩
    · exact panicked_of_overflows hover h

end HostScheduler

/-! ## Values of `Crawl-delay` -/

/-- The number is no infinity and less than `2 ^ 64`; what is negative or no number
counts as 0. -/
def FitsDuration : UnpackedFloat → Prop
  | .infinity .positive => False
  | .finite .positive m e _ => m * 2 ^ e.toNat < 2 ^ 64 * 2 ^ (-e).toNat
  | _ => True

/-- A value that is an integer, or no number, or a number that fits. -/
def DelayFits (val : Str) : Prop :=
  Str.parseU64 val.trim = none → ∀ f, Str.parseF64 val.trim = some f → FitsDuration f

theorem fromSecsF64_isSome_iff (f : UnpackedFloat) :
    (Duration.fromSecsF64 (f64MaxZero f)).isSome ↔ FitsDuration f := by
  cases f with
  | notANumber => exact iff_of_true rfl trivial
  | infinity sign =>
    cases sign with
    | negative => exact iff_of_true rfl trivial
    | positive => exact iff_of_false Bool.false_ne_true id
  | zero sign => exact iff_of_true rfl trivial
  | finite sign m e hm =>
    cases sign with
    | negative => exact iff_of_true rfl trivial
    | positive =>
      show (if m * 2 ^ e.toNat < 2 ^ 64 * 2 ^ (-e).toNat then
        some (Duration.mk (divRoundHalfEven (m * 2 ^ e.toNat * nanosPerSec) (2 ^ (-e).toNat)))
          else none).isSome ↔ m * 2 ^ e.toNat < 2 ^ 64 * 2 ^ (-e).toNat
      split
      · next hlt => exact iff_of_true rfl hlt
      · next hge => exact iff_of_false Bool.false_ne_true hge

/-- **Which values are read.** -/
theorem parseCrawlDelay_isSome_iff (val : Str) :
    (parseCrawlDelay val).isSome ↔ DelayFits val := by
  rw [parseCrawlDelay, DelayFits]
  split
  · next hempty =>
    have hnone : Str.parseF64 [] = none := by decide
    rw [List.isEmpty_iff.mp hempty, hnone]
    exact iff_of_true rfl fun _ f hf => nomatch hf
  · cases Str.parseU64 val.trim with
    | some n => simp
    | none =>
      cases Str.parseF64 val.trim with
      | none => simp
      | some f =>
        rw [Option.isSome_map, fromSecsF64_isSome_iff]
        simp

/-! ## The crawler -/

/-- The files that were parsed, and the scheduler. -/
structure PoliteCrawler where
  robots : List RobotsTxt
  scheduler : HostScheduler
  /-- A call of a method of `RobotsTxt` has panicked. -/
  panicked : Bool

inductive CrawlAction where
  | parse (text : Str)
  /-- `is_allowed` of the file `k`. -/
  | isAllowed (k : Nat) (userAgent path : Str)
  /-- `acquire_polite` with the `crawl_delay` of the file `k`. -/
  | acquirePolite (host : Str) (k : Nat) (userAgent : Str)
  | tick (n : Nat)
  | move (i : Nat)
  | dropGlobal (i : Nat)
  | dropHost (i : Nat)
  deriving DecidableEq, Repr

namespace PoliteCrawler

def schedule (maxInstant : Nat) (c : PoliteCrawler) (a : Action) : Option PoliteCrawler :=
  (c.scheduler.step maxInstant a).map fun s => { c with scheduler := s }

def step (maxInstant : Nat) (c : PoliteCrawler) : CrawlAction → Option PoliteCrawler
  | .parse text =>
      match RobotsTxt.parse text with
      | some r => some { c with robots := c.robots ++ [r] }
      | none => some { c with panicked := true }
  | .isAllowed k userAgent path => c.robots[k]?.map fun r =>
      if (r.isAllowed userAgent path).isSome then c else { c with panicked := true }
  | .acquirePolite host k userAgent => c.robots[k]?.bind fun r =>
      c.schedule maxInstant (.call host ((r.crawlDelay userAgent).map Duration.nanos))
  | .tick n => c.schedule maxInstant (.tick n)
  | .move i => c.schedule maxInstant (.move i)
  | .dropGlobal i => c.schedule maxInstant (.dropGlobal i)
  | .dropHost i => c.schedule maxInstant (.dropHost i)

/-- Something has panicked. -/
def Panicked (c : PoliteCrawler) : Prop := c.panicked = true ∨ c.scheduler.Panicked

/-- The delay values of a text fit, and no call reads a gate whose instant overflows. -/
def Safe (maxInstant : Nat) (c : PoliteCrawler) : CrawlAction → Prop
  | .parse text => ∀ val, Directive.rule .crawlDelay val ∈ directives text → DelayFits val
  | .move i => ¬ c.scheduler.Overflows maxInstant i
  | _ => True

end PoliteCrawler

/-- All runs of crawlers on a scheduler with these limits. -/
def politeCrawler (maxInstant globalLimit perHostLimit : Nat) : Lts PoliteCrawler CrawlAction :=
  .ofStep ⟨[], .new globalLimit perHostLimit, false⟩ (PoliteCrawler.step maxInstant)

namespace PoliteCrawler

variable {maxInstant globalLimit perHostLimit : Nat} {c c' : PoliteCrawler}

/-- The files of a crawler come from `parse`. -/
def Parsed (c : PoliteCrawler) : Prop := ∀ r ∈ c.robots, r.groups ≠ []

theorem panicked_schedule_iff {a : Action} (h : c.schedule maxInstant a = some c') :
    c'.Panicked ↔ c.Panicked ∨ ∃ i, a = .move i ∧ c.scheduler.Overflows maxInstant i := by
  obtain ⟨s, hs, rfl⟩ := Option.map_eq_some_iff.mp h
  rw [Panicked, Panicked, HostScheduler.panicked_step_iff hs, or_assoc]

/-- A file with a group answers for every path. -/
theorem isAllowed_isSome {r : RobotsTxt} (h : r.groups ≠ []) (userAgent path : Str) :
    (r.isAllowed userAgent path).isSome = true := by
  obtain ⟨g, gs, hgroups⟩ := List.exists_cons_of_ne_nil h
  rw [RobotsTxt.isAllowed, RobotsTxt.groupForPaths, hgroups, Option.isSome_map,
    List.getElem?_cons_zero, Option.isSome_or]
  exact Bool.or_true _

theorem robots_schedule {a : Action} (h : c.schedule maxInstant a = some c') :
    c'.robots = c.robots := by
  obtain ⟨s, -, rfl⟩ := Option.map_eq_some_iff.mp h
  rfl

/-- A step adds at most a file that was parsed. -/
theorem robots_step {a : CrawlAction} (h : c.step maxInstant a = some c') :
    c'.robots = c.robots ∨
      ∃ text r, RobotsTxt.parse text = some r ∧ c'.robots = c.robots ++ [r] := by
  cases a with
  | parse text =>
    rw [step] at h
    cases hparse : RobotsTxt.parse text with
    | some r =>
      rw [hparse] at h
      cases h
      exact .inr ⟨text, r, hparse, rfl⟩
    | none =>
      rw [hparse] at h
      cases h
      exact .inl rfl
  | isAllowed k userAgent path =>
    obtain ⟨r, -, rfl⟩ := Option.map_eq_some_iff.mp h
    split <;> exact .inl rfl
  | acquirePolite host k userAgent =>
    obtain ⟨r, -, hcall⟩ := Option.bind_eq_some_iff.mp h
    exact .inl (robots_schedule hcall)
  | tick n => exact .inl (robots_schedule h)
  | move i => exact .inl (robots_schedule h)
  | dropGlobal i => exact .inl (robots_schedule h)
  | dropHost i => exact .inl (robots_schedule h)

theorem inductive_parsed :
    (politeCrawler maxInstant globalLimit perHostLimit).Inductive (fun _ => True)
      (fun _ c => c.Parsed) where
  start := by
    rintro _ rfl r hr
    cases hr
  next := by
    intro tr c a c' _ hparsed hstep r hr
    rcases robots_step hstep with heq | ⟨text, r', hparse, heq⟩
    · exact hparsed r (heq ▸ hr)
    · rw [heq, List.mem_append, List.mem_singleton] at hr
      rcases hr with hr | rfl
      · exact hparsed r hr
      · exact (parse_groups hparse).2

/-- **One step** panics exactly if it is not safe, and a panic stays. -/
theorem panicked_step_iff (hparsed : c.Parsed) {a : CrawlAction}
    (h : c.step maxInstant a = some c') : c'.Panicked ↔ c.Panicked ∨ ¬ c.Safe maxInstant a := by
  cases a with
  | parse text =>
    have hparse := @parse_isSome_iff text
    simp only [parseCrawlDelay_isSome_iff] at hparse
    rw [Safe, ← hparse]
    rw [step] at h
    cases hr : RobotsTxt.parse text with
    | some r =>
      rw [hr] at h
      cases h
      simp [Panicked]
    | none =>
      rw [hr] at h
      cases h
      simp [Panicked]
  | isAllowed k userAgent path =>
    obtain ⟨r, hr, rfl⟩ := Option.map_eq_some_iff.mp h
    rw [if_pos (isAllowed_isSome (hparsed r (List.mem_of_getElem? hr)) userAgent path)]
    exact (or_iff_left (not_not.mpr trivial)).symm
  | acquirePolite host k userAgent =>
    obtain ⟨r, -, hcall⟩ := Option.bind_eq_some_iff.mp h
    rw [panicked_schedule_iff hcall]
    simp [Safe]
  | move i =>
    rw [panicked_schedule_iff h, Safe, not_not]
    simp
  | tick n =>
    rw [panicked_schedule_iff h]
    simp [Safe]
  | dropGlobal i =>
    rw [panicked_schedule_iff h]
    simp [Safe]
  | dropHost i =>
    rw [panicked_schedule_iff h]
    simp [Safe]

/-- **When a robots.txt file crashes nothing.** -/
theorem noPanic_iff {tr : List CrawlAction}
    (h : (politeCrawler maxInstant globalLimit perHostLimit).Run tr c) :
    ¬ c.Panicked ↔
      ((politeCrawler maxInstant globalLimit perHostLimit).restrict (Safe maxInstant)).Run
        tr c := by
  refine Lts.Run.restrict_iff ?_ ?_ h
  · rintro _ rfl
    rintro (hpanic | ⟨t, ht, -⟩)
    · cases hpanic
    · cases ht
  · intro tr s a s' hrun hstep
    exact panicked_step_iff (hrun.invariant inductive_parsed fun _ _ => trivial) hstep

/-- A delay of 2 seconds, waited for once. -/
def delayedTwice : List CrawlAction :=
  [.parse "Crawl-delay: 2\n".toList, .acquirePolite "a".toList 0 "gurtbot".toList, .move 0, .move 0,
    .move 0, .move 0, .acquirePolite "a".toList 0 "gurtbot".toList, .move 1, .move 1, .move 1]

theorem noPanic_iff_delayedTwice :
    ∃ c, (politeCrawler (2 ^ 63 * nanosPerSec) 2 1).Run delayedTwice c ∧
      (¬ c.Panicked ↔ ((politeCrawler (2 ^ 63 * nanosPerSec) 2 1).restrict
        (Safe (2 ^ 63 * nanosPerSec))).Run delayedTwice c) :=
  have hrun := Lts.run_get (show (delayedTwice.foldlM (step (2 ^ 63 * nanosPerSec))
    ⟨[], .new 2 1, false⟩).isSome by decide)
  ⟨_, hrun, noPanic_iff hrun⟩

/-- The largest delay that is read, waited for by the second request. -/
def hugeDelay : List CrawlAction :=
  [.parse "Crawl-delay: 18446744073709551615\n".toList,
    .acquirePolite "a".toList 0 "gurtbot".toList, .move 0, .move 0, .move 0, .move 0,
    .acquirePolite "a".toList 0 "gurtbot".toList, .move 1, .move 1, .move 1]

/-- An infinite delay panics in `parse`, and a large one at the second request. -/
theorem not_noPanic_hostile :
    (∃ c, (politeCrawler (2 ^ 63 * nanosPerSec) 2 1).Run [.parse "Crawl-delay: inf\n".toList] c ∧
      c.Panicked) ∧
    ∃ c, (politeCrawler (2 ^ 63 * nanosPerSec) 2 1).Run hugeDelay c ∧ c.Panicked := by
  refine ⟨⟨_, Lts.run_of_foldlM (s := ⟨[], .new 2 1, true⟩) rfl, .inl rfl⟩, ?_⟩
  have hrun := Lts.run_get (show (hugeDelay.foldlM (step (2 ^ 63 * nanosPerSec))
    ⟨[], .new 2 1, false⟩).isSome by decide)
  refine ⟨_, hrun, .inr ⟨⟨"a".toList, some (18446744073709551615 * nanosPerSec), .panicked, none,
    none⟩, by decide, rfl⟩⟩

end PoliteCrawler

end Gurted.Crawler
