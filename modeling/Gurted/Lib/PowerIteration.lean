import Mathlib.Algebra.BigOperators.Field
import Mathlib.Algebra.Order.BigOperators.Group.Finset
import Mathlib.Data.Finset.Basic
import Mathlib.Tactic.FieldSimp
import Mathlib.Tactic.Linarith
import Mathlib.Tactic.Ring

/-!
# Power iteration with damping

Finitely many nodes, each with the list of the nodes it links to. In a round every
node gives its mass to its links, one part for each link, scaled by a damping `d`, and
every node receives the base mass `(1 - d) / n`. A link that is repeated counts as
often as it is; a node without links gives nothing.

Mass is not created: where the masses sum to at most one they still do, and where
every node has a link they sum to exactly one.
-/

namespace Gurted.Lib

open Finset

/-- A finite graph as lists of links. -/
structure Links (κ : Type*) where
  nodes : Finset κ
  out : κ → List κ
  closed : ∀ u ∈ nodes, ∀ v ∈ out u, v ∈ nodes

namespace Links

variable {κ K : Type*} [Field K] [LinearOrder K] [IsStrictOrderedRing K]
  (L : Links κ) {d : K} {rank : κ → K}

/-- What one link of a node carries. -/
def share (d : K) (rank : κ → K) (u : κ) : K := d * (rank u / (max (L.out u).length 1 : ℕ))

theorem share_nonneg (hd : 0 ≤ d) {u : κ} (hrank : 0 ≤ rank u) : 0 ≤ L.share d rank u :=
  mul_nonneg hd (div_nonneg hrank (Nat.cast_nonneg _))

/-- What a node gives away in a round: all of its mass, damped, or nothing. -/
theorem length_mul_share (u : κ) :
    ((L.out u).length : K) * L.share d rank u = if L.out u = [] then 0 else d * rank u := by
  by_cases hu : L.out u = []
  · rw [if_pos hu, hu, List.length_nil, Nat.cast_zero, zero_mul]
  · have hpos : 0 < (L.out u).length := List.length_pos_iff.mpr hu
    have hne : ((L.out u).length : K) ≠ 0 := by exact_mod_cast Nat.pos_iff_ne_zero.mp hpos
    rw [if_neg hu, share, Nat.max_eq_left hpos]
    field_simp

theorem base_nonneg (hd : d ≤ 1) : 0 ≤ (1 - d) / (#L.nodes : K) :=
  div_nonneg (by linarith) (Nat.cast_nonneg _)

variable [DecidableEq κ]

/-- The mass of a node after a round. -/
def round (d : K) (rank : κ → K) (v : κ) : K :=
  (1 - d) / #L.nodes + ∑ u ∈ L.nodes, (L.out u).count v * L.share d rank u

/-- The mass of a node after `i` rounds from equal masses. -/
def power (d : K) : ℕ → κ → K
  | 0, _ => 1 / #L.nodes
  | i + 1, v => L.round d (power d i) v

/-! ## One round -/

/-- The links of a node go to nodes, so its links are counted once over all nodes. -/
theorem sum_count (u : κ) (hu : u ∈ L.nodes) :
    ∑ v ∈ L.nodes, (L.out u).count v = (L.out u).length := by
  have hcard := Multiset.sum_count_eq_card (m := (L.out u : Multiset κ)) (L.closed u hu)
  simpa only [Multiset.coe_count, Multiset.coe_card] using hcard

/-- **The mass after a round**: the base, and what the nodes give away. -/
theorem sum_round (hne : L.nodes.Nonempty) :
    ∑ v ∈ L.nodes, L.round d rank v
      = (1 - d) + ∑ u ∈ L.nodes, if L.out u = [] then 0 else d * rank u := by
  have hcard : (#L.nodes : K) ≠ 0 := by exact_mod_cast (card_pos.mpr hne).ne'
  have hgiven : ∀ u ∈ L.nodes, ∑ v ∈ L.nodes, ((L.out u).count v : K) * L.share d rank u
      = if L.out u = [] then 0 else d * rank u := by
    intro u hu
    rw [← sum_mul, ← Nat.cast_sum, L.sum_count u hu, L.length_mul_share]
  simp only [round]
  rw [sum_add_distrib, sum_const, nsmul_eq_mul, mul_div_cancel₀ _ hcard, sum_comm,
    sum_congr rfl hgiven]

theorem base_le_round (hd : 0 ≤ d) (hrank : ∀ u ∈ L.nodes, 0 ≤ rank u) (v : κ) :
    (1 - d) / #L.nodes ≤ L.round d rank v := by
  rw [round]
  have hsum : 0 ≤ ∑ u ∈ L.nodes, ((L.out u).count v : K) * L.share d rank u :=
    sum_nonneg fun u hu => mul_nonneg (Nat.cast_nonneg _) (L.share_nonneg hd (hrank u hu))
  linarith

/-! ## Every number of rounds -/

/-- No node falls below the base. -/
theorem base_le_power (h0 : 0 ≤ d) (h1 : d ≤ 1) (i : ℕ) (v : κ) :
    (1 - d) / #L.nodes ≤ L.power d i v := by
  induction i generalizing v with
  | zero =>
    show (1 - d) / #L.nodes ≤ 1 / #L.nodes
    exact div_le_div_of_nonneg_right (by linarith) (Nat.cast_nonneg _)
  | succ i ih =>
    apply L.base_le_round h0
    intro u _
    exact (L.base_nonneg h1).trans (ih u)

theorem sum_power_zero (hne : L.nodes.Nonempty) : ∑ v ∈ L.nodes, L.power d 0 v = 1 := by
  have hcard : (#L.nodes : K) ≠ 0 := by exact_mod_cast (card_pos.mpr hne).ne'
  show ∑ v ∈ L.nodes, 1 / (#L.nodes : K) = 1
  rw [sum_const, nsmul_eq_mul, mul_one_div_cancel hcard]

/-- **Mass is not created.** -/
theorem sum_power_le (h0 : 0 ≤ d) (h1 : d ≤ 1) (hne : L.nodes.Nonempty) (i : ℕ) :
    ∑ v ∈ L.nodes, L.power d i v ≤ 1 := by
  induction i with
  | zero => exact (L.sum_power_zero hne).le
  | succ i ih =>
    have hgiven : ∑ u ∈ L.nodes, (if L.out u = [] then 0 else d * L.power d i u)
        ≤ ∑ u ∈ L.nodes, d * L.power d i u := by
      apply sum_le_sum
      intro u _
      have hpos : 0 ≤ L.power d i u := (L.base_nonneg h1).trans (L.base_le_power h0 h1 i u)
      split
      · exact mul_nonneg h0 hpos
      · exact le_refl _
    rw [← mul_sum] at hgiven
    have hmass : d * ∑ u ∈ L.nodes, L.power d i u ≤ d * 1 := mul_le_mul_of_nonneg_left ih h0
    show ∑ v ∈ L.nodes, L.round d (L.power d i) v ≤ 1
    rw [L.sum_round hne]
    linarith

/-- **Mass is kept** where every node has a link. -/
theorem sum_power_eq (hout : ∀ u ∈ L.nodes, L.out u ≠ []) (hne : L.nodes.Nonempty) (i : ℕ) :
    ∑ v ∈ L.nodes, L.power d i v = 1 := by
  induction i with
  | zero => exact L.sum_power_zero hne
  | succ i ih =>
    have hgiven : ∑ u ∈ L.nodes, (if L.out u = [] then 0 else d * L.power d i u)
        = ∑ u ∈ L.nodes, d * L.power d i u :=
      sum_congr rfl fun u hu => if_neg (hout u hu)
    show ∑ v ∈ L.nodes, L.round d (L.power d i) v = 1
    rw [L.sum_round hne, hgiven, ← mul_sum, ih]
    ring

end Links

end Gurted.Lib
