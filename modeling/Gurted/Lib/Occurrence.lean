import Mathlib.Data.List.Infix
import Mathlib.Data.List.TakeDrop
import Mathlib.Data.Nat.Find

/-!
# First occurrence of a delimiter

`findSub pat l` is the index of the leftmost contiguous occurrence of `pat` in
`l`. Two facts carry its users: where the search ends (`findSub_eq_some_iff`,
`findSub_eq_none_iff`), and that a buffer known to hold no occurrence can be
searched again after growing by looking only at its last `pat.length - 1`
elements and what was appended (`findSub_resume`). Of parts put together, an
occurrence is in one of them or across a joint (`infix_append_iff`,
`infix_flatten_iff`). `splitSub` cuts a list at every occurrence of a delimiter,
left to right; the pieces make the list again (`join_splitSub`), and an end of
the list has no new piece but its first (`tail_splitSub_suffix`).
-/

namespace Gurted.Lib

variable {α : Type*}

/-- `pat` occurs in `l` at index `i`. -/
def OccursAt (pat l : List α) (i : Nat) : Prop := i ≤ l.length ∧ pat <+: l.drop i

theorem OccursAt.bound {pat l : List α} {i : Nat} (h : OccursAt pat l i) :
    i + pat.length ≤ l.length := by
  have hlen := h.2.length_le
  rw [List.length_drop] at hlen
  have := h.1
  omega

theorem occursAt_zero {pat l : List α} : OccursAt pat l 0 ↔ pat <+: l := by
  simp [OccursAt]

theorem occursAt_cons_succ {pat l : List α} {a : α} {i : Nat} :
    OccursAt pat (a :: l) (i + 1) ↔ OccursAt pat l i := by
  simp [OccursAt]

/-- An occurrence inside a prefix is an occurrence in the whole list. -/
theorem OccursAt.append {pat l : List α} {i : Nat} (h : OccursAt pat l i) (r : List α) :
    OccursAt pat (l ++ r) i := by
  refine ⟨by rw [List.length_append]; exact Nat.le_trans h.1 (Nat.le_add_right _ _), ?_⟩
  rw [List.drop_append_of_le_length h.1]
  exact h.2.trans (List.prefix_append _ _)

/-- An occurrence inside what follows a list. -/
theorem OccursAt.append_left {pat r : List α} {i : Nat} (h : OccursAt pat r i) (l : List α) :
    OccursAt pat (l ++ r) (l.length + i) := by
  refine ⟨?_, ?_⟩
  · have := h.1
    rw [List.length_append]
    omega
  · rw [← List.drop_drop, List.drop_left]
    exact h.2

/-- An occurrence that ends inside the left part is one of the left part. -/
theorem OccursAt.of_append {pat l r : List α} {i : Nat} (h : OccursAt pat (l ++ r) i)
    (hi : i + pat.length ≤ l.length) : OccursAt pat l i := by
  have hil : i ≤ l.length := by omega
  refine ⟨hil, ?_⟩
  have hpre := h.2
  rw [List.drop_append_of_le_length hil] at hpre
  exact List.prefix_of_prefix_length_le hpre (List.prefix_append _ r)
    (by rw [List.length_drop]; omega)

/-- **A pattern in two parts put together** is in one of them or across the joint. -/
theorem infix_append_iff {pat l r : List α} :
    pat <:+: l ++ r ↔ pat <:+: l ∨ pat <:+: r ∨
      ∃ p q, p ≠ [] ∧ q ≠ [] ∧ pat = p ++ q ∧ p <:+ l ∧ q <+: r := by
  constructor
  · rintro ⟨u, v, h⟩
    rcases List.append_eq_append_iff.mp h with ⟨t, rfl, -⟩ | ⟨q, hq, rfl⟩
    · exact .inl ⟨u, t, rfl⟩
    · rcases List.append_eq_append_iff.mp hq with ⟨p, rfl, rfl⟩ | ⟨t, -, rfl⟩
      · cases p with
        | nil => exact .inr (.inl (List.prefix_append q v).isInfix)
        | cons a p =>
          cases q with
          | nil =>
            rw [List.append_nil]
            exact .inl (List.suffix_append u (a :: p)).isInfix
          | cons b q =>
            exact .inr (.inr ⟨a :: p, b :: q, List.cons_ne_nil _ _, List.cons_ne_nil _ _, rfl,
              List.suffix_append _ _, List.prefix_append _ _⟩)
      · exact .inr (.inl ⟨t, v, rfl⟩)
  · rintro (h | h | ⟨p, q, -, -, rfl, ⟨u, rfl⟩, ⟨v, rfl⟩⟩)
    · exact h.trans (List.prefix_append l r).isInfix
    · exact h.trans (List.suffix_append l r).isInfix
    · exact ⟨u, v, by simp⟩

/-- An element that is not of the pattern keeps two parts without it apart. -/
theorem not_infix_append_cons {x : α} {pat l r : List α} (hx : x ∉ pat) (hl : ¬ pat <:+: l)
    (hr : ¬ pat <:+: r) : ¬ pat <:+: l ++ x :: r := by
  have hpat : pat ≠ [] := by
    rintro rfl
    exact hl List.nil_infix
  rw [infix_append_iff, List.infix_cons_iff]
  rintro (h | (h | h) | ⟨p, q, -, hq, rfl, -, hqr⟩)
  · exact hl h
  · obtain ⟨a, pat, rfl⟩ := List.exists_cons_of_ne_nil hpat
    obtain ⟨rfl, -⟩ := List.cons_prefix_cons.mp h
    exact hx List.mem_cons_self
  · exact hr h
  · obtain ⟨b, q, rfl⟩ := List.exists_cons_of_ne_nil hq
    obtain ⟨rfl, -⟩ := List.cons_prefix_cons.mp hqr
    exact hx (List.mem_append_right p List.mem_cons_self)

/-- **A pattern in many parts put together** is in one of them or across a joint. -/
theorem infix_flatten_iff {pat : List α} (hpat : pat ≠ []) (ls : List (List α)) :
    pat <:+: ls.flatten ↔ (∃ l ∈ ls, pat <:+: l) ∨
      ∃ ls₁ ls₂ p q, ls = ls₁ ++ ls₂ ∧ p ≠ [] ∧ q ≠ [] ∧ pat = p ++ q ∧
        p <:+ ls₁.flatten ∧ q <+: ls₂.flatten := by
  constructor
  · intro h
    induction ls with
    | nil => exact absurd (List.infix_nil.mp h) hpat
    | cons l ls ih =>
      rcases infix_append_iff.mp h with hl | hr | ⟨p, q, hp, hq, hpq, hpl, hqr⟩
      · exact .inl ⟨l, List.mem_cons_self, hl⟩
      · rcases ih hr with ⟨l', hl', hin⟩ | ⟨ls₁, ls₂, p, q, rfl, hp, hq, hpq, hpl, hqr⟩
        · exact .inl ⟨l', List.mem_cons_of_mem l hl', hin⟩
        · exact .inr ⟨l :: ls₁, ls₂, p, q, rfl, hp, hq, hpq,
            hpl.trans (List.suffix_append l ls₁.flatten), hqr⟩
      · exact .inr ⟨[l], ls, p, q, rfl, hp, hq, hpq, by simpa using hpl, hqr⟩
  · rintro (⟨l, hl, hin⟩ | ⟨ls₁, ls₂, p, q, rfl, hp, hq, hpq, hpl, hqr⟩)
    · exact hin.trans (List.infix_of_mem_flatten hl)
    · rw [List.flatten_append]
      exact infix_append_iff.mpr (.inr (.inr ⟨p, q, hp, hq, hpq, hpl, hqr⟩))

section Search
variable [DecidableEq α]

/-- The index of the first occurrence of `pat` as a contiguous part of `l`. -/
def findSub (pat : List α) : List α → Option Nat
  | [] => if pat.isEmpty then some 0 else none
  | a :: l =>
      if pat.isPrefixOf (a :: l) then some 0 else (findSub pat l).map (· + 1)

theorem findSub_eq_some_iff {pat l : List α} {i : Nat} :
    findSub pat l = some i ↔ OccursAt pat l i ∧ ∀ j < i, ¬ OccursAt pat l j := by
  induction l generalizing i with
  | nil =>
    cases pat with
    | nil =>
      constructor
      · intro h
        cases h
        exact ⟨⟨Nat.le_refl _, List.nil_prefix⟩, fun j hj => absurd hj (Nat.not_lt_zero j)⟩
      · intro hfirst
        obtain ⟨⟨hi, -⟩, -⟩ := hfirst
        have : i = 0 := Nat.le_zero.mp hi
        simp [findSub, this]
    | cons a pat => simp [findSub, OccursAt]
  | cons a l ih =>
    by_cases hp : pat <+: a :: l
    · have hpb : pat.isPrefixOf (a :: l) = true := List.isPrefixOf_iff_prefix.mpr hp
      simp only [findSub, hpb, if_true]
      constructor
      · intro h
        cases h
        exact ⟨occursAt_zero.mpr hp, fun j hj => absurd hj (Nat.not_lt_zero j)⟩
      · intro hfirst
        obtain ⟨-, hmin⟩ := hfirst
        cases i with
        | zero => rfl
        | succ i => exact absurd (occursAt_zero.mpr hp) (hmin 0 (Nat.succ_pos i))
    · have hpb : ¬ pat.isPrefixOf (a :: l) = true :=
        fun h => hp (List.isPrefixOf_iff_prefix.mp h)
      simp only [findSub, if_neg hpb, Option.map_eq_some_iff]
      constructor
      · intro hfound
        obtain ⟨k, hk, rfl⟩ := hfound
        obtain ⟨hocc, hmin⟩ := ih.mp hk
        refine ⟨occursAt_cons_succ.mpr hocc, fun j hj => ?_⟩
        cases j with
        | zero => exact fun h => hp (occursAt_zero.mp h)
        | succ j => exact fun h => hmin j (by omega) (occursAt_cons_succ.mp h)
      · intro hfirst
        obtain ⟨hocc, hmin⟩ := hfirst
        cases i with
        | zero => exact absurd (occursAt_zero.mp hocc) hp
        | succ k =>
          refine ⟨k, ih.mpr ⟨occursAt_cons_succ.mp hocc, fun j hj => ?_⟩, rfl⟩
          exact fun h => hmin (j + 1) (by omega) (occursAt_cons_succ.mpr h)

theorem findSub_eq_none_iff {pat l : List α} :
    findSub pat l = none ↔ ∀ i, ¬ OccursAt pat l i := by
  constructor
  · intro h i hi
    -- a least occurrence would be found
    classical
    have hex : ∃ i, OccursAt pat l i := ⟨i, hi⟩
    have hfind := findSub_eq_some_iff.mpr
      ⟨Nat.find_spec hex, fun j hj => Nat.find_min hex hj⟩
    rw [h] at hfind
    cases hfind
  · intro h
    cases hf : findSub pat l with
    | none => rfl
    | some i => exact absurd (findSub_eq_some_iff.mp hf).1 (h i)

theorem findSub_le {pat l : List α} {i : Nat} (h : findSub pat l = some i) :
    i + pat.length ≤ l.length :=
  (findSub_eq_some_iff.mp h).1.bound

/-- What has been found stays the first occurrence when the buffer grows. -/
theorem findSub_append_of_some {pat l : List α} {i : Nat} (h : findSub pat l = some i)
    (r : List α) : findSub pat (l ++ r) = some i := by
  obtain ⟨hocc, hmin⟩ := findSub_eq_some_iff.mp h
  refine findSub_eq_some_iff.mpr ⟨hocc.append r, fun j hj hj' => hmin j hj ?_⟩
  exact hj'.of_append (by have := hocc.bound; omega)

/-- No element of `l` starts `pat`, so the search moves past `l`. -/
theorem findSub_append_of_head_notMem {x : α} {pat l : List α} (hx : x ∉ l) (r : List α) :
    findSub (x :: pat) (l ++ r) = (findSub (x :: pat) r).map (· + l.length) := by
  induction l with
  | nil => simp
  | cons a l ih =>
    obtain ⟨hxa, hxl⟩ := not_or.mp (List.mem_cons.not.mp hx)
    have hnp : ¬ (x :: pat).isPrefixOf (a :: (l ++ r)) = true := by
      simp [List.isPrefixOf, hxa]
    rw [List.cons_append, findSub, if_neg hnp, ih hxl, Option.map_map]
    congr 1

/-- **Resuming the search**: a buffer with no occurrence, extended by `r`, needs
only be searched from any `s` that leaves fewer than `pat.length` of its old
elements behind the resumption point. -/
theorem findSub_resume {pat l : List α} (hnone : findSub pat l = none) (r : List α)
    {s : Nat} (hs : s + pat.length ≤ l.length + 1 ∨ s = 0) :
    findSub pat (l ++ r) = (findSub pat ((l ++ r).drop s)).map (s + ·) := by
  have hfar : ∀ j < s, ¬ OccursAt pat (l ++ r) j := by
    intro j hj hocc
    exact findSub_eq_none_iff.mp hnone j (hocc.of_append (by omega))
  have hshift : ∀ i, s ≤ (l ++ r).length →
      (OccursAt pat ((l ++ r).drop s) i ↔ OccursAt pat (l ++ r) (s + i)) := by
    intro i hsl
    simp only [OccursAt, List.length_drop, List.drop_drop]
    constructor <;> rintro ⟨h1, h2⟩ <;> exact ⟨by omega, h2⟩
  have hsl : s ≤ (l ++ r).length ∨ pat = [] := by
    rw [List.length_append]
    cases pat with
    | nil => exact .inr rfl
    | cons a pat => simp only [List.length_cons] at hs; left; omega
  rcases hsl with hsl | rfl
  · cases hf : findSub pat ((l ++ r).drop s) with
    | none =>
      rw [Option.map_none, findSub_eq_none_iff]
      intro i hi
      rcases Nat.lt_or_ge i s with hlt | hge
      · exact hfar i hlt hi
      · refine findSub_eq_none_iff.mp hf (i - s) ((hshift _ hsl).mpr ?_)
        rwa [Nat.add_sub_cancel' hge]
    | some i =>
      obtain ⟨hocc, hmin⟩ := findSub_eq_some_iff.mp hf
      rw [Option.map_some, findSub_eq_some_iff]
      refine ⟨(hshift i hsl).mp hocc, fun j hj hj' => ?_⟩
      rcases Nat.lt_or_ge j s with hlt | hge
      · exact hfar j hlt hj'
      · refine hmin (j - s) (by omega) ((hshift _ hsl).mpr ?_)
        rwa [Nat.add_sub_cancel' hge]
  · -- the empty pattern occurs in every list, so `hnone` is impossible
    exact absurd ⟨Nat.zero_le _, List.nil_prefix⟩ (findSub_eq_none_iff.mp hnone 0)

theorem findSub_isSome_iff {pat l : List α} : (findSub pat l).isSome = true ↔ pat <:+: l := by
  constructor
  · intro h
    obtain ⟨i, hi⟩ := Option.isSome_iff_exists.mp h
    obtain ⟨⟨-, hpre⟩, -⟩ := findSub_eq_some_iff.mp hi
    exact hpre.isInfix.trans (List.drop_suffix i l).isInfix
  · rintro ⟨u, v, rfl⟩
    rw [Option.isSome_iff_ne_none]
    intro hnone
    refine findSub_eq_none_iff.mp hnone u.length ⟨?_, ?_⟩
    · rw [List.append_assoc, List.length_append]
      omega
    · rw [List.append_assoc, List.drop_left]
      exact List.prefix_append _ _

/-- **The parts around the first occurrence.** -/
theorem exists_first_of_infix {pat l : List α} (hpat : pat ≠ []) (h : pat <:+: l) :
    ∃ u v, l = u ++ (pat ++ v) ∧ ¬ pat <:+: u ++ pat.dropLast := by
  obtain ⟨i, hi⟩ := Option.isSome_iff_exists.mp (findSub_isSome_iff.mpr h)
  obtain ⟨⟨hil, v, hv⟩, hmin⟩ := findSub_eq_some_iff.mp hi
  have hl : l = l.take i ++ (pat ++ v) := by rw [hv, List.take_append_drop]
  refine ⟨l.take i, v, hl, fun hin => ?_⟩
  -- an occurrence in there is one of `l`, before `i`
  obtain ⟨j, hj⟩ := Option.isSome_iff_exists.mp (findSub_isSome_iff.mpr hin)
  have hocc := (findSub_eq_some_iff.mp hj).1
  have hjlt : j < i := by
    have hbound := hocc.bound
    have hpos := List.length_pos_iff.mpr hpat
    rw [List.length_append, List.length_take, List.length_dropLast] at hbound
    omega
  refine hmin j hjlt ?_
  have hlonger : l = l.take i ++ pat.dropLast ++ (pat.getLast hpat :: v) := by
    rw [List.append_assoc, List.append_cons, List.dropLast_append_getLast hpat]
    exact hl
  rw [hlonger]
  exact hocc.append _

/-- A pattern whose first element it has only once is found where it stands, behind what does
not hold it. -/
theorem findSub_append_of_prefix {x : α} {pat l r : List α} (hx : x ∉ pat)
    (hl : ¬ x :: pat <:+: l) (hr : x :: pat <+: r) :
    findSub (x :: pat) (l ++ r) = some l.length := by
  induction l with
  | nil =>
    obtain ⟨t, rfl⟩ := hr
    rw [List.nil_append, List.cons_append, findSub, if_pos]
    · rfl
    · exact List.isPrefixOf_iff_prefix.mpr (List.prefix_append (x :: pat) t)
  | cons a l ih =>
    have hnp : ¬ (x :: pat).isPrefixOf (a :: (l ++ r)) = true := by
      intro hp
      obtain ⟨rfl, t, ht⟩ := List.cons_prefix_cons.mp (List.isPrefixOf_iff_prefix.mp hp)
      rcases List.append_eq_append_iff.mp ht with ⟨u, rfl, -⟩ | ⟨q, rfl, rfl⟩
      · exact hl (List.prefix_append (x :: pat) u).isInfix
      · cases q with
        | nil => exact hl (by rw [List.append_nil])
        | cons b q =>
          -- what stands behind the joint is the first element again
          obtain ⟨rfl, -⟩ := List.cons_prefix_cons.mp hr
          exact hx (List.mem_append_right l List.mem_cons_self)
    rw [List.cons_append, findSub, if_neg hnp,
      ih fun h => hl (h.trans (List.suffix_cons a l).isInfix)]
    rfl

/-! ## Splitting at a delimiter -/

/-- The pieces of a list between the occurrences of `pat`, after `k` elements
that belong to an occurrence already taken. -/
def splitSubAux (pat : List α) : Nat → List α → List (List α)
  | _, [] => [[]]
  | k + 1, _ :: l => splitSubAux pat k l
  | 0, a :: l =>
      if pat.isPrefixOf (a :: l) then [] :: splitSubAux pat (pat.length - 1) l
      else (splitSubAux pat 0 l).modifyHead (a :: ·)

/-- The pieces of `l` between the leftmost non-overlapping occurrences of a
non-empty `pat`. -/
def splitSub (pat l : List α) : List (List α) := splitSubAux pat 0 l

theorem splitSubAux_append (pat : List α) (l r : List α) :
    splitSubAux pat l.length (l ++ r) = splitSub pat r := by
  induction l with
  | nil => rfl
  | cons a l ih => exact ih

/-- A piece without the delimiter's first element is cut off whole. -/
theorem splitSub_append_cons {x : α} {pat l : List α} (hx : x ∉ l) (r : List α) :
    splitSub (x :: pat) (l ++ (x :: pat) ++ r) = l :: splitSub (x :: pat) r := by
  induction l with
  | nil =>
    have hp : (x :: pat).isPrefixOf (x :: (pat ++ r)) = true :=
      List.isPrefixOf_iff_prefix.mpr (List.prefix_append (x :: pat) r)
    simp only [List.nil_append, List.cons_append, splitSub, splitSubAux, hp, if_true,
      List.length_cons, Nat.add_sub_cancel]
    rw [splitSubAux_append, splitSub]
  | cons a l ih =>
    obtain ⟨hxa, hxl⟩ := not_or.mp (List.mem_cons.not.mp hx)
    have hnp : ¬ (x :: pat).isPrefixOf (a :: (l ++ (x :: pat) ++ r)) = true := by
      simp [List.isPrefixOf, hxa]
    rw [splitSub] at ih ⊢
    rw [List.cons_append, List.cons_append, splitSubAux, if_neg hnp, ih hxl]
    rfl

theorem splitSubAux_ne_nil (pat : List α) (k : Nat) (l : List α) : splitSubAux pat k l ≠ [] := by
  induction l generalizing k with
  | nil => exact List.cons_ne_nil _ _
  | cons a l ih =>
    cases k with
    | succ k => exact ih k
    | zero =>
      rw [splitSubAux]
      split
      · exact List.cons_ne_nil _ _
      · obtain ⟨p, ps, hps⟩ := List.exists_cons_of_ne_nil (ih 0)
        rw [hps]
        exact List.cons_ne_nil _ _

theorem join_splitSubAux {pat : List α} (hpat : pat ≠ []) (k : Nat) (l : List α) :
    (splitSubAux pat k l).headD [] ++ (splitSubAux pat k l).tail.flatMap (pat ++ ·) = l.drop k := by
  induction l generalizing k with
  | nil =>
    rw [List.drop_nil]
    rfl
  | cons a l ih =>
    cases k with
    | succ k => exact ih k
    | zero =>
      rw [splitSubAux]
      split
      · next hpre =>
        obtain ⟨x, pat, rfl⟩ := List.exists_cons_of_ne_nil hpat
        obtain ⟨rfl, r, rfl⟩ := List.cons_prefix_cons.mp (List.isPrefixOf_iff_prefix.mp hpre)
        obtain ⟨p, ps, hps⟩ :=
          List.exists_cons_of_ne_nil (splitSubAux_ne_nil (x :: pat) pat.length (pat ++ r))
        have hrec := ih pat.length
        rw [hps, List.drop_left] at hrec
        rw [List.length_cons, Nat.add_sub_cancel, hps]
        simpa using hrec
      · obtain ⟨p, ps, hps⟩ := List.exists_cons_of_ne_nil (splitSubAux_ne_nil pat 0 l)
        have hrec := ih 0
        rw [hps, List.drop_zero] at hrec
        rw [hps]
        exact congrArg (a :: ·) hrec

/-- **The pieces put together**, each but the first behind a delimiter. -/
theorem join_splitSub {pat : List α} (hpat : pat ≠ []) (l : List α) :
    (splitSub pat l).headD [] ++ (splitSub pat l).tail.flatMap (pat ++ ·) = l :=
  join_splitSubAux hpat 0 l

/-- What does not hold the delimiter's first element belongs to the first piece. -/
theorem splitSub_append_of_head_notMem {x : α} {pat l : List α} (hx : x ∉ l) (r : List α) :
    splitSub (x :: pat) (l ++ r) = (splitSub (x :: pat) r).modifyHead (l ++ ·) := by
  induction l with
  | nil =>
    show splitSub (x :: pat) r = (splitSub (x :: pat) r).modifyHead id
    rw [List.modifyHead_id, id]
  | cons a l ih =>
    obtain ⟨hxa, hxl⟩ := not_or.mp (List.mem_cons.not.mp hx)
    have hnp : ¬ (x :: pat).isPrefixOf (a :: (l ++ r)) = true := by
      simp [List.isPrefixOf, hxa]
    rw [splitSub] at ih ⊢
    rw [List.cons_append, splitSubAux, if_neg hnp, ih hxl, List.modifyHead_modifyHead]
    rfl

/-- **The pieces of the end of a list**: only the first of them can be new. -/
theorem tail_splitSub_suffix {x : α} {pat : List α} (hx : x ∉ pat) {y l : List α} (h : y <:+ l) :
    (splitSub (x :: pat) y).tail <:+ (splitSub (x :: pat) l).tail := by
  induction hn : l.length using Nat.strong_induction_on generalizing y l with
  | _ n ih =>
    subst hn
    cases l with
    | nil =>
      rw [List.suffix_nil.mp h]
    | cons a l =>
      rcases List.suffix_cons_iff.mp h with rfl | hy
      · exact List.suffix_refl _
      · by_cases hpre : x :: pat <+: a :: l
        · obtain ⟨rfl, r, rfl⟩ := List.cons_prefix_cons.mp hpre
          have hwhole : splitSub (x :: pat) (x :: (pat ++ r)) = [] :: splitSub (x :: pat) r :=
            splitSub_append_cons List.not_mem_nil r
          rw [hwhole, List.tail_cons]
          -- the cut is behind the delimiter, or inside it
          rcases List.suffix_or_suffix_of_suffix hy (List.suffix_append pat r) with hyr | ⟨q, rfl⟩
          · have hlt : r.length < (x :: (pat ++ r)).length := by
              rw [List.length_cons, List.length_append]
              omega
            exact (ih r.length hlt hyr rfl).trans (List.tail_suffix _)
          · obtain ⟨u, hu⟩ := hy
            rw [← List.append_assoc] at hu
            have hq : x ∉ q := by
              rw [← List.append_cancel_right hu] at hx
              exact fun hm => hx (List.mem_append_right u hm)
            rw [splitSub_append_of_head_notMem hq, List.tail_modifyHead]
            exact List.tail_suffix _
        · have hnp : ¬ (x :: pat).isPrefixOf (a :: l) = true :=
            fun hp => hpre (List.isPrefixOf_iff_prefix.mp hp)
          have hrec := ih l.length (by simp) hy rfl
          rw [splitSub, splitSub, splitSubAux, if_neg hnp, List.tail_modifyHead]
          exact hrec

end Search

end Gurted.Lib
