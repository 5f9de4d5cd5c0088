import Mathlib.Algebra.Order.Field.Basic
import Mathlib.LinearAlgebra.FiniteDimensional.Lemmas
import Gurted.Lib.PowerIteration

/-!
# Where power iteration leads

With a damping below one, a round brings any two distributions of mass closer together, by
the damping at least. So there is exactly one distribution that a round leaves as it is, and
the power iteration approaches it geometrically. The names of the nodes play no part.
-/

namespace Gurted.Lib.Links

open Finset

/-! ## What a node receives -/

section Field
variable {κ K : Type*} [Field K] (L : Links κ) {d : K} {f g : κ → K}

theorem share_sub (u : κ) :
    L.share d (fun u => f u - g u) u = L.share d f u - L.share d g u := by
  simp only [share]
  ring

variable [DecidableEq κ]

/-- A round without the base. -/
def inflow (d : K) (f : κ → K) (v : κ) : K := ∑ u ∈ L.nodes, (L.out u).count v * L.share d f u

theorem inflow_sub (v : κ) :
    L.inflow d (fun u => f u - g u) v = L.inflow d f v - L.inflow d g v := by
  simp only [inflow, share_sub, mul_sub, sum_sub_distrib]

theorem round_sub_round (v : κ) :
    L.round d f v - L.round d g v = L.inflow d (fun u => f u - g u) v := by
  rw [inflow_sub, round, round, inflow, inflow]
  ring

/-- The masses do not depend on what the nodes are called, nor on the order of the links. -/
theorem power_relabel {κ' : Type*} [DecidableEq κ'] {L' : Links κ'} {ρ : κ → κ'}
    (hρ : Function.Injective ρ) (hnodes : L'.nodes = L.nodes.image ρ)
    (hlength : ∀ u ∈ L.nodes, (L'.out (ρ u)).length = (L.out u).length)
    (hcount : ∀ u ∈ L.nodes, ∀ v, (L'.out (ρ u)).count (ρ v) = (L.out u).count v) (d : K) (i : ℕ)
    (v : κ) : L'.power d i (ρ v) = L.power d i v := by
  have hcard : #(L'.nodes) = #L.nodes := by rw [hnodes, card_image_of_injective _ hρ]
  induction i generalizing v with
  | zero =>
    show 1 / (#(L'.nodes) : K) = 1 / #L.nodes
    rw [hcard]
  | succ i ih =>
    show L'.round d (L'.power d i) (ρ v) = L.round d (L.power d i) v
    rw [round, round, hcard, hnodes, sum_image hρ.injOn]
    congr 1
    refine sum_congr rfl fun u hu => ?_
    rw [hcount u hu, share, share, hlength u hu, ih]

end Field

/-! ## Masses come closer -/

variable {κ K : Type*} [Field K] [LinearOrder K] [IsStrictOrderedRing K] (L : Links κ)
  {d : K} {f g : κ → K}

theorem abs_share (hd : 0 ≤ d) (u : κ) : |L.share d f u| = L.share d (fun u => |f u|) u := by
  rw [share, share, abs_mul, abs_div, abs_of_nonneg hd, Nat.abs_cast]

/-- Masses that a damped round makes larger are nothing. -/
theorem eq_zero_of_sum_le (h1 : d < 1) {a : κ → K} (ha : ∀ v ∈ L.nodes, 0 ≤ a v)
    (h : ∑ v ∈ L.nodes, a v ≤ d * ∑ v ∈ L.nodes, a v) : ∀ v ∈ L.nodes, a v = 0 := by
  have hpos : 0 ≤ ∑ v ∈ L.nodes, a v := sum_nonneg ha
  have hzero : ∑ v ∈ L.nodes, a v = 0 := by
    by_contra hne
    have hlt : 0 < ∑ v ∈ L.nodes, a v := lt_of_le_of_ne hpos (Ne.symm hne)
    have hstrict := mul_lt_mul_of_pos_right h1 hlt
    rw [one_mul] at hstrict
    exact absurd h (not_le.mpr hstrict)
  exact fun v hv => (sum_eq_zero_iff_of_nonneg ha).mp hzero v hv

variable [DecidableEq κ]

theorem inflow_mono (hd : 0 ≤ d) (h : ∀ u ∈ L.nodes, f u ≤ g u) (v : κ) :
    L.inflow d f v ≤ L.inflow d g v := by
  refine sum_le_sum fun u hu => mul_le_mul_of_nonneg_left ?_ (Nat.cast_nonneg _)
  exact mul_le_mul_of_nonneg_left (div_le_div_of_nonneg_right (h u hu) (Nat.cast_nonneg _)) hd

theorem abs_inflow_le (hd : 0 ≤ d) (v : κ) :
    |L.inflow d f v| ≤ L.inflow d (fun u => |f u|) v := by
  refine (abs_sum_le_sum_abs _ _).trans (le_of_eq (sum_congr rfl fun u _ => ?_))
  rw [abs_mul, Nat.abs_cast, L.abs_share hd]

/-- Nothing is received that was not given. -/
theorem sum_inflow_le (hd : 0 ≤ d) (hf : ∀ u ∈ L.nodes, 0 ≤ f u) :
    ∑ v ∈ L.nodes, L.inflow d f v ≤ d * ∑ u ∈ L.nodes, f u := by
  have hgiven : ∀ u ∈ L.nodes, ∑ v ∈ L.nodes, ((L.out u).count v : K) * L.share d f u
      ≤ d * f u := by
    intro u hu
    rw [← sum_mul, ← Nat.cast_sum, L.sum_count u hu, L.length_mul_share]
    split
    · exact mul_nonneg hd (hf u hu)
    · exact le_refl _
  rw [mul_sum]
  simp only [inflow]
  rw [sum_comm]
  exact sum_le_sum hgiven

/-- **A round brings masses closer together.** -/
theorem sum_abs_inflow_le (hd : 0 ≤ d) :
    ∑ v ∈ L.nodes, |L.inflow d f v| ≤ d * ∑ u ∈ L.nodes, |f u| :=
  (sum_le_sum fun v _ => L.abs_inflow_le hd v).trans
    (L.sum_inflow_le hd fun u _ => abs_nonneg (f u))

/-! ## The stationary masses -/

/-- A round leaves the masses as they are. -/
def Stationary (d : K) (f : κ → K) : Prop := ∀ v ∈ L.nodes, L.round d f v = f v

variable {L}

theorem Stationary.unique (h0 : 0 ≤ d) (h1 : d < 1) (hf : L.Stationary d f)
    (hg : L.Stationary d g) : ∀ v ∈ L.nodes, f v = g v := by
  have hsum : ∑ v ∈ L.nodes, |f v - g v| ≤ d * ∑ v ∈ L.nodes, |f v - g v| := by
    refine le_trans (le_of_eq (sum_congr rfl fun v hv => ?_)) (L.sum_abs_inflow_le h0)
    rw [← L.round_sub_round, hf v hv, hg v hv]
  intro v hv
  have hzero := L.eq_zero_of_sum_le h1 (fun v _ => abs_nonneg (f v - g v)) hsum v hv
  exact sub_eq_zero.mp (abs_eq_zero.mp hzero)

/-- No stationary mass is negative: what is negative would only be passed on damped. -/
theorem Stationary.nonneg (h0 : 0 ≤ d) (h1 : d < 1) (hf : L.Stationary d f) :
    ∀ v ∈ L.nodes, 0 ≤ f v := by
  let debt : κ → K := fun v => max 0 (-f v)
  have hdebt : ∀ v ∈ L.nodes, debt v ≤ L.inflow d debt v := by
    intro v hv
    have hzero : ∀ u ∈ L.nodes, (0 : K) ≤ debt u := fun u _ => le_max_left _ _
    have hinflow : L.inflow d (fun _ => 0) v ≤ L.inflow d debt v := L.inflow_mono h0 hzero v
    have hnothing : L.inflow d (fun _ => (0 : K)) v = 0 := by simp [inflow, share]
    refine max_le (hnothing ▸ hinflow) ?_
    have hlower : L.inflow d (fun u => 0 - debt u) v ≤ L.inflow d f v := by
      refine L.inflow_mono h0 (fun u _ => ?_) v
      have := le_max_right 0 (-f u)
      show 0 - max 0 (-f u) ≤ f u
      linarith
    rw [L.inflow_sub, hnothing] at hlower
    have hround := hf v hv
    have hbase : 0 ≤ (1 - d) / (#L.nodes : K) := L.base_nonneg h1.le
    rw [round] at hround
    rw [inflow] at hlower ⊢
    rw [inflow] at hlower
    linarith
  have hsum : ∑ v ∈ L.nodes, debt v ≤ d * ∑ v ∈ L.nodes, debt v :=
    (sum_le_sum hdebt).trans (L.sum_inflow_le h0 fun u _ => le_max_left _ _)
  intro v hv
  have hzero := L.eq_zero_of_sum_le h1 (fun u _ => le_max_left _ _) hsum v hv
  have hle : -f v ≤ max 0 (-f v) := le_max_right _ _
  change max 0 (-f v) = 0 at hzero
  linarith

theorem Stationary.base_le (h0 : 0 ≤ d) (h1 : d < 1) (hf : L.Stationary d f) :
    ∀ v ∈ L.nodes, (1 - d) / #L.nodes ≤ f v := by
  intro v hv
  rw [← hf v hv]
  exact L.base_le_round h0 (hf.nonneg h0 h1) v

theorem Stationary.sum_le (h0 : 0 ≤ d) (h1 : d < 1) (hf : L.Stationary d f)
    (hne : L.nodes.Nonempty) : ∑ v ∈ L.nodes, f v ≤ 1 := by
  have hcard : (#L.nodes : K) ≠ 0 := by exact_mod_cast (card_pos.mpr hne).ne'
  have hsum : ∑ v ∈ L.nodes, f v = (1 - d) + ∑ v ∈ L.nodes, L.inflow d f v := by
    have hround : ∀ v ∈ L.nodes, f v = (1 - d) / #L.nodes + L.inflow d f v := fun v hv =>
      (hf v hv).symm
    rw [sum_congr rfl hround, sum_add_distrib, sum_const, nsmul_eq_mul, mul_div_cancel₀ _ hcard]
  have hle := L.sum_inflow_le h0 (hf.nonneg h0 h1)
  nlinarith

variable (L)

/-- Masses of the nodes as masses of everything. -/
def extend (x : L.nodes → K) (u : κ) : K := if h : u ∈ L.nodes then x ⟨u, h⟩ else 0

/-- What a round without the base takes from the nodes. -/
def deficit (d : K) : (L.nodes → K) →ₗ[K] (L.nodes → K) where
  toFun x v := x v - L.inflow d (L.extend x) v
  map_add' x y := by
    funext v
    have hextend : L.extend (x + y) = fun u => L.extend x u - (0 - L.extend y u) := by
      funext u
      by_cases hu : u ∈ L.nodes <;> simp [extend, hu]
    have hzero : L.inflow d (fun _ => (0 : K)) v = 0 := by simp [inflow, share]
    simp only [hextend, inflow_sub, hzero, Pi.add_apply]
    ring
  map_smul' c x := by
    funext v
    have hextend : ∀ u, L.extend (c • x) u = c * L.extend x u := by
      intro u
      by_cases hu : u ∈ L.nodes <;> simp [extend, hu]
    simp only [inflow, share, hextend, Pi.smul_apply, smul_eq_mul, RingHom.id_apply, mul_sub,
      mul_sum]
    congr 1
    refine sum_congr rfl fun u _ => ?_
    ring

/-- **There are stationary masses.** -/
theorem exists_stationary (h0 : 0 ≤ d) (h1 : d < 1) : ∃ f, L.Stationary d f := by
  have hmem : ∀ (x : L.nodes → K) v (hv : v ∈ L.nodes), L.extend x v = x ⟨v, hv⟩ :=
    fun x v hv => dif_pos hv
  have hinjective : Function.Injective (L.deficit d) := by
    refine (injective_iff_map_eq_zero _).mpr fun x hx => ?_
    have hsame : ∀ v (hv : v ∈ L.nodes), x ⟨v, hv⟩ = L.inflow d (L.extend x) v := fun v hv =>
      sub_eq_zero.mp (congrFun hx ⟨v, hv⟩)
    have hsum : ∑ v ∈ L.nodes, |L.extend x v| ≤ d * ∑ v ∈ L.nodes, |L.extend x v| := by
      refine le_trans (le_of_eq (sum_congr rfl fun v hv => ?_)) (L.sum_abs_inflow_le h0)
      rw [hmem x v hv, hsame v hv]
    funext v
    have hzero := L.eq_zero_of_sum_le h1 (fun v _ => abs_nonneg (L.extend x v)) hsum v v.2
    rw [hmem x v v.2] at hzero
    exact abs_eq_zero.mp hzero
  obtain ⟨x, hx⟩ := LinearMap.surjective_of_injective hinjective
    fun _ => (1 - d) / (#L.nodes : K)
  refine ⟨L.extend x, fun v hv => ?_⟩
  have hbase : x ⟨v, hv⟩ - L.inflow d (L.extend x) v = (1 - d) / #L.nodes := congrFun hx ⟨v, hv⟩
  rw [hmem x v hv, round, ← hbase]
  exact sub_add_cancel _ _

/-! ## The iteration -/

variable {L}

/-- Every round comes closer to the stationary masses. -/
theorem Stationary.sum_abs_power_sub_le (h0 : 0 ≤ d) (hf : L.Stationary d f) (i : ℕ) :
    ∑ v ∈ L.nodes, |L.power d i v - f v| ≤ d ^ i * ∑ v ∈ L.nodes, |L.power d 0 v - f v| := by
  induction i with
  | zero => rw [pow_zero, one_mul]
  | succ i ih =>
    calc ∑ v ∈ L.nodes, |L.power d (i + 1) v - f v|
        = ∑ v ∈ L.nodes, |L.inflow d (fun u => L.power d i u - f u) v| := by
          refine sum_congr rfl fun v hv => ?_
          rw [← L.round_sub_round, hf v hv]
          rfl
      _ ≤ d * ∑ v ∈ L.nodes, |L.power d i v - f v| := L.sum_abs_inflow_le h0
      _ ≤ d * (d ^ i * ∑ v ∈ L.nodes, |L.power d 0 v - f v|) := mul_le_mul_of_nonneg_left ih h0
      _ = d ^ (i + 1) * ∑ v ∈ L.nodes, |L.power d 0 v - f v| := by ring

/-- **Geometric convergence.** -/
theorem Stationary.sum_abs_power_sub_le_two (h0 : 0 ≤ d) (h1 : d < 1) (hf : L.Stationary d f)
    (hne : L.nodes.Nonempty) (i : ℕ) : ∑ v ∈ L.nodes, |L.power d i v - f v| ≤ 2 * d ^ i := by
  have hstart : ∑ v ∈ L.nodes, |L.power d 0 v - f v| ≤ 2 := by
    calc ∑ v ∈ L.nodes, |L.power d 0 v - f v|
        ≤ ∑ v ∈ L.nodes, (L.power d 0 v + f v) := by
          refine sum_le_sum fun v hv => ?_
          have hpower := (L.base_nonneg h1.le).trans (L.base_le_power h0 h1.le 0 v)
          have hmass := hf.nonneg h0 h1 v hv
          rw [abs_le]
          constructor <;> linarith
      _ = ∑ v ∈ L.nodes, L.power d 0 v + ∑ v ∈ L.nodes, f v := sum_add_distrib
      _ ≤ 1 + 1 := add_le_add (L.sum_power_zero hne).le (hf.sum_le h0 h1 hne)
      _ = 2 := by norm_num
  calc ∑ v ∈ L.nodes, |L.power d i v - f v|
      ≤ d ^ i * ∑ v ∈ L.nodes, |L.power d 0 v - f v| := hf.sum_abs_power_sub_le h0 i
    _ ≤ d ^ i * 2 := mul_le_mul_of_nonneg_left hstart (pow_nonneg h0 i)
    _ = 2 * d ^ i := mul_comm _ _

end Gurted.Lib.Links
