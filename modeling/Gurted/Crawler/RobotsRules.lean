import Mathlib.Data.List.MinMax
import Mathlib.Order.Lattice.Nat
import Gurted.Crawler.Robots

/-!
# Rules of a robots.txt file (`gurtd/src/crawler/robots.rs`)

`most_specific_rule` goes through the patterns of a group with the best rule so
far; `allows_eq_false_iff` says what comes out without the order: a path is
disallowed if the longest pattern that disallows it is longer than every one that
allows it.
-/

namespace Gurted.Crawler

open Gurted

/-! ## `most_specific_rule` -/

inductive Rule where
  | allow (pattern : Str)
  | disallow (pattern : Str)
  deriving DecidableEq, Repr

def Rule.pattern : Rule → Str
  | .allow s => s
  | .disallow s => s

def Rule.isDisallow : Rule → Bool
  | .allow _ => false
  | .disallow _ => true

/-- `test`, with the best rule as it leaves it. -/
def Rule.test (path : Str) (kind : Str → Rule) (best : Option Rule) (pattern : Str) :
    Option Rule :=
  if pattern.isEmpty then best
  else if path.startsWith pattern then
    match best with
    | none => some (kind pattern)
    | some prev =>
        match compare pattern.byteLen prev.pattern.byteLen with
        | .gt => some (kind pattern)
        | .eq =>
            -- an allow rule wins a tie
            if prev.isDisallow && !(kind []).isDisallow then some (kind pattern) else some prev
        | .lt => some prev
  else best

def mostSpecificRule (group : AgentGroup) (path : Str) : Option Rule :=
  group.disallow.foldl (Rule.test path .disallow) (group.allow.foldl (Rule.test path .allow) none)

/-- The end of `is_allowed`: what a group says of a path. -/
def AgentGroup.allows (group : AgentGroup) (path : Str) : Bool :=
  match mostSpecificRule group path with
  | none => true
  | some (.allow _) => true
  | some (.disallow _) => false

/-! ## The longest pattern -/

/-- A pattern that counts for a path. -/
def applies (path pattern : Str) : Bool := !pattern.isEmpty && path.startsWith pattern

/-- The length of the longest pattern that counts, `⊥` when none does. -/
def longest (path : Str) (patterns : List Str) : WithBot Nat :=
  ((patterns.filter (applies path)).map Str.byteLen).maximum

/-- The length of the best rule so far. -/
def bestLen (best : Option Rule) : WithBot Nat := best.map fun r => r.pattern.byteLen

/-- The best rule so far disallows. -/
def disallowed (best : Option Rule) : Bool := best.any Rule.isDisallow

/-- The length of a pattern that counts. -/
def lenFor (path p : Str) : WithBot Nat := if applies path p then WithBot.some p.byteLen else ⊥

theorem longest_cons (path p : Str) (ps : List Str) :
    longest path (p :: ps) = max (lenFor path p) (longest path ps) := by
  rw [longest, List.filter_cons, lenFor]
  split
  · rw [List.map_cons, List.maximum_cons, longest]
  · exact (max_eq_right bot_le).symm

/-- The longest pattern does not depend on the order or on repetitions. -/
theorem longest_congr {ps qs : List Str} (h : ∀ p, p ∈ ps ↔ p ∈ qs) (path : Str) :
    longest path ps = longest path qs := by
  have hle : ∀ {ps qs : List Str}, (∀ p ∈ ps, p ∈ qs) → longest path ps ≤ longest path qs := by
    intro ps qs hsub
    refine List.maximum_mono fun n hn => ?_
    obtain ⟨p, hp, rfl⟩ := List.mem_map.mp hn
    obtain ⟨hmem, happ⟩ := List.mem_filter.mp hp
    exact List.mem_map_of_mem (List.mem_filter.mpr ⟨hsub p hmem, happ⟩)
  exact le_antisymm (hle fun p hp => (h p).mp hp) (hle fun p hp => (h p).mpr hp)

section Fold
variable {path : Str} {kind : Str → Rule}

/-- What one pattern does to the best rule: nothing, or it takes its place. It is longer
then, or as long and allows what the best rule disallowed. -/
theorem test_cases (best : Option Rule) (p : Str) :
    (Rule.test path kind best p = best ∧ lenFor path p ≤ bestLen best) ∨
      (Rule.test path kind best p = some (kind p) ∧ lenFor path p = WithBot.some p.byteLen ∧
        (bestLen best < WithBot.some p.byteLen ∨
          bestLen best = WithBot.some p.byteLen ∧ disallowed best = true ∧
            (kind []).isDisallow = false)) := by
  rw [Rule.test.eq_def, lenFor, applies]
  cases hempty : p.isEmpty with
  | true => exact .inl ⟨rfl, bot_le⟩
  | false =>
    cases hstart : path.startsWith p with
    | false => exact .inl ⟨rfl, bot_le⟩
    | true =>
      simp only [Bool.false_eq_true, if_false, if_true, Bool.not_false, Bool.and_self]
      cases best with
      | none => exact .inr ⟨rfl, trivial, .inl (WithBot.bot_lt_coe _)⟩
      | some prev =>
        have hlen : bestLen (some prev) = WithBot.some prev.pattern.byteLen := rfl
        simp only [hlen, WithBot.coe_lt_coe, WithBot.coe_le_coe, WithBot.coe_inj]
        rcases lt_trichotomy p.byteLen prev.pattern.byteLen with hlt | heq | hgt
        · rw [compare_lt_iff_lt.mpr hlt]
          exact .inl ⟨rfl, hlt.le⟩
        · rw [compare_eq_iff_eq.mpr heq]
          simp only
          split
          · next htie =>
            rw [Bool.and_eq_true, Bool.not_eq_true'] at htie
            exact .inr ⟨rfl, trivial, .inr ⟨heq.symm, htie⟩⟩
          · exact .inl ⟨rfl, heq.le⟩
        · rw [compare_gt_iff_gt.mpr hgt]
          exact .inr ⟨rfl, trivial, .inl hgt⟩

/-- One pattern: the best rule is as long as it and the best before. -/
theorem bestLen_test (hkind : ∀ p, (kind p).pattern = p) (best : Option Rule) (p : Str) :
    bestLen (Rule.test path kind best p) = max (bestLen best) (lenFor path p) := by
  rcases test_cases best p with ⟨heq, hle⟩ | ⟨heq, hlen, hge⟩
  · rw [heq, max_eq_left hle]
  · have hle : bestLen best ≤ WithBot.some p.byteLen := hge.elim le_of_lt fun h => h.1.le
    rw [heq, hlen, max_eq_right hle, bestLen, Option.map_some, hkind]
    rfl

theorem bestLen_foldl (hkind : ∀ p, (kind p).pattern = p) (ps : List Str) (best : Option Rule) :
    bestLen (ps.foldl (Rule.test path kind) best) = max (bestLen best) (longest path ps) := by
  induction ps generalizing best with
  | nil => exact (max_eq_left bot_le).symm
  | cons p ps ih => rw [List.foldl_cons, ih, bestLen_test hkind, longest_cons path p, max_assoc]

/-- Allow patterns leave no rule that disallows. -/
theorem disallowed_foldl_allow (ps : List Str) {best : Option Rule}
    (h : disallowed best = false) :
    disallowed (ps.foldl (Rule.test path .allow) best) = false := by
  induction ps generalizing best with
  | nil => exact h
  | cons p ps ih =>
    refine ih ?_
    rcases @test_cases path .allow best p with ⟨heq, -⟩ | ⟨heq, -⟩
    · rw [heq, h]
    · rw [heq]
      rfl

/-- A disallow pattern takes its place only if it is longer. -/
theorem disallowed_test_disallow (best : Option Rule) (p : Str) :
    disallowed (Rule.test path .disallow best p) = true ↔
      disallowed best = true ∨ bestLen best < bestLen (Rule.test path .disallow best p) := by
  rcases @test_cases path .disallow best p with ⟨heq, -⟩ | ⟨heq, -, hlt | hge⟩
  · rw [heq]
    exact (or_iff_left (lt_irrefl _)).symm
  · rw [heq]
    exact iff_of_true rfl (.inr hlt)
  · cases hge.2.2

/-- All disallow patterns: the best rule disallows if it did or has become longer. -/
theorem disallowed_foldl_disallow (ps : List Str) (best : Option Rule) :
    disallowed (ps.foldl (Rule.test path .disallow) best) = true ↔
      disallowed best = true ∨
        bestLen best < bestLen (ps.foldl (Rule.test path .disallow) best) := by
  induction ps generalizing best with
  | nil => exact (or_iff_left (lt_irrefl _)).symm
  | cons p ps ih =>
    rw [List.foldl_cons, ih, disallowed_test_disallow, or_assoc]
    refine or_congr_right ?_
    have hstep : bestLen best ≤ bestLen (Rule.test path .disallow best p) := by
      rw [bestLen_test fun _ => rfl]
      exact le_max_left _ _
    have hrest : bestLen (Rule.test path .disallow best p)
        ≤ bestLen (ps.foldl (Rule.test path .disallow) (Rule.test path .disallow best p)) := by
      rw [bestLen_foldl fun _ => rfl]
      exact le_max_left _ _
    constructor
    · rintro (hlt | hlt)
      · exact hlt.trans_le hrest
      · exact hstep.trans_lt hlt
    · intro hlt
      rcases hstep.lt_or_eq with hstep | hstep
      · exact .inl hstep
      · exact .inr (hstep ▸ hlt)

end Fold

/-- **What a group disallows**: the longest pattern decides, and an allow rule wins a
tie. -/
theorem allows_eq_false_iff (group : AgentGroup) (path : Str) :
    group.allows path = false ↔ longest path group.allow < longest path group.disallow := by
  have hallows : group.allows path = false ↔ disallowed (mostSpecificRule group path) = true := by
    rw [AgentGroup.allows]
    rcases mostSpecificRule group path with - | - | - <;> simp [disallowed, Rule.isDisallow]
  have hfirst : disallowed (group.allow.foldl (Rule.test path .allow) none) = false :=
    disallowed_foldl_allow _ rfl
  have hlen : bestLen (group.allow.foldl (Rule.test path .allow) none)
      = longest path group.allow := by
    rw [bestLen_foldl fun _ => rfl]
    exact max_eq_right bot_le
  rw [hallows, mostSpecificRule, disallowed_foldl_disallow, hfirst, or_iff_right Bool.false_ne_true,
    @bestLen_foldl path .disallow fun _ => rfl, hlen, lt_max_iff]
  exact or_iff_right (lt_irrefl _)

/-- **Precedence.** For every group and every path: the path is disallowed exactly if
some disallow pattern counts for it and the longest such is longer than every allow
pattern that counts; another group with the same patterns, in any order and any number
of times, decides the same. -/
theorem mostSpecificRule_precedence (group : AgentGroup) (path : Str) :
    (group.allows path = false ↔ longest path group.allow < longest path group.disallow) ∧
      ∀ group' : AgentGroup, (∀ p, p ∈ group'.allow ↔ p ∈ group.allow) →
        (∀ p, p ∈ group'.disallow ↔ p ∈ group.disallow) →
          group'.allows path = group.allows path := by
  refine ⟨allows_eq_false_iff group path, fun group' hallow hdisallow => ?_⟩
  have hfalse : group'.allows path = false ↔ group.allows path = false := by
    rw [allows_eq_false_iff, allows_eq_false_iff, longest_congr hallow, longest_congr hdisallow]
  cases hg : group.allows path with
  | false => exact hfalse.mpr hg
  | true =>
    rw [hg] at hfalse
    exact Bool.eq_true_of_not_eq_false fun h => Bool.false_ne_true (hfalse.mp h).symm

end Gurted.Crawler
