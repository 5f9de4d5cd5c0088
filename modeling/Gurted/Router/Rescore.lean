import Mathlib.Algebra.Order.Floor.Semiring
import Mathlib.Data.Rat.Floor
import Mathlib.Tactic.Positivity
import Gurted.Index.Search
import Gurted.Search.Merge

/-!
# Rescoring (`rescore_and_convert` of `gurtd/src/router/search_utils.rs`)

The hits of the engine get a new score, from the old one, the authority of their URL and
their age, and are sorted by it. An operation on floats is the exact one and then a rounding,
of which no more is known than that it keeps the order and zero. `rescore_ranks`: a hit that
is as good as a later one in all three stays before it.
-/

namespace Gurted.Router

open Gurted Gurted.Lib Gurted.Index Gurted.Search

/-! ## Rounded numbers -/

/-- The rounding of a float type: it keeps the order, and zero is a float. -/
structure Rounding (K : Type*) [Zero K] [Preorder K] where
  round : K → K
  mono : Monotone round
  zero : round 0 = 0

theorem Rounding.nonneg {K : Type*} [Zero K] [Preorder K] (r : Rounding K) {x : K} (h : 0 ≤ x) :
    0 ≤ r.round x := by
  have hround := r.mono h
  rwa [r.zero] at hround

variable {K : Type*} [Field K] [LinearOrder K]

/-! ## `rescore_and_convert` -/

/-- What `rescore_and_convert` reads besides the hits. -/
structure RescoreEnv (K : Type*) [Zero K] [Preorder K] where
  f32 : Rounding K
  f64 : Rounding K
  /-- `AUTH_STORE`. -/
  authority : Str → Option K
  /-- `(0.5f64).powf`. -/
  halfPow : K → K
  /-- The seconds since the epoch. -/
  now : Int

/-- `domain_trust_from_cname_depth`. -/
def domainTrustFromCnameDepth (f64 : Rounding K) (depth : Nat) : K :=
  if 5 < depth then 0 else f64.round (1 / f64.round (1 + f64.round depth))

/-- Seven days. -/
def halfLifeSecs : Int := 7 * 24 * 3600

/-- The greatest score, or a millionth. -/
def maxBm (env : RescoreEnv K) (hits : List (SearchHit K)) : K :=
  max ((hits.map SearchHit.score).foldl max 0) (env.f32.round (1 / 1000000))

/-- The new score of a hit. -/
def rescored (env : RescoreEnv K) (maxBm : K) (h : SearchHit K) : K :=
  let r := env.f64.round
  let bm25 := env.f32.round (h.score / maxBm)
  let auth := (env.authority h.url).getD 0
  let trust := domainTrustFromCnameDepth env.f64 0
  let age := r (max (env.now - h.fetchTime) 0 : Int)
  let recency := if 0 < halfLifeSecs then env.halfPow (r (age / r halfLifeSecs)) else 0
  let score := r (r (r (r (r (6 / 10) * bm25) + r (r (2 / 10) * auth)) + r (r (1 / 10) * trust))
    + r (r (1 / 10) * recency))
  env.f32.round score

def convert (env : RescoreEnv K) (maxBm : K) (h : SearchHit K) : SearchResultItem K :=
  ⟨h.title, h.url, rescored env maxBm h⟩

/-- `rescore_and_convert`; `none` is a panic of `merge_topk`. `sort_by` is stable. -/
def rescoreAndConvert (env : RescoreEnv K) (hits : List (SearchHit K)) (k : Nat) :
    Option (List (SearchResultItem K)) :=
  if hits.isEmpty then some []
  else
    mergeTopk [stableSort SearchResultItem.score (hits.map (convert env (maxBm env hits)))] k

/-- The times in seconds are `i64` and not negative, so that the subtraction of the source
does not wrap and is the one of `rescored`. -/
theorem now_sub_fetchTime_i64 {env : RescoreEnv K} {h : SearchHit K} {now fetchTime : Int64}
    (hnow : env.now = now.toInt) (hfetch : h.fetchTime = fetchTime.toInt)
    (hnow_nonneg : 0 ≤ now.toInt) (hfetch_nonneg : 0 ≤ fetchTime.toInt) :
    (now - fetchTime).toInt = env.now - h.fetchTime := by
  have hnow_lt := now.toInt_lt
  have hfetch_lt := fetchTime.toInt_lt
  rw [Int64.toInt_sub, hnow, hfetch]
  exact Int.bmod_eq_of_le (by omega) (by omega)

/-! ## The ranking -/

/-- The hits in the order in which they are shown. -/
def ranked (env : RescoreEnv K) (hits : List (SearchHit K)) : List (SearchHit K) :=
  stableSort (rescored env (maxBm env hits)) hits

theorem ranked_perm (env : RescoreEnv K) (hits : List (SearchHit K)) :
    (ranked env hits).Perm hits :=
  (sortsStably_stableSort hits).perm

/-- Sorting the converted hits is converting the sorted ones. -/
theorem map_ranked (env : RescoreEnv K) (hits : List (SearchHit K)) :
    (ranked env hits).map (convert env (maxBm env hits))
      = stableSort SearchResultItem.score (hits.map (convert env (maxBm env hits))) :=
  List.map_insertionSort _ _ _ _ fun _ _ _ _ => Iff.rfl

theorem ranked_sorted (env : RescoreEnv K) (hits : List (SearchHit K)) :
    ((ranked env hits).map (convert env (maxBm env hits))).Pairwise
      fun a b => b.score ≤ a.score :=
  List.pairwise_map.mpr (sortsStably_stableSort hits).sorted

/-- **What is shown** is the beginning of the ranking; nothing panics. -/
theorem rescoreAndConvert_eq (env : RescoreEnv K) (hits : List (SearchHit K)) (k : Nat) :
    rescoreAndConvert env hits k
      = some (((ranked env hits).take k).map (convert env (maxBm env hits))) := by
  rw [rescoreAndConvert]
  by_cases hempty : hits.isEmpty = true
  · rw [if_pos hempty, List.isEmpty_iff.mp hempty]
    simp [ranked, stableSort]
  · rw [if_neg hempty, ← map_ranked, mergeTopk, mergeLoop_eq]
    · have hsorted := ranked_sorted env hits
      have hsame : stableSort SearchResultItem.score
            ((ranked env hits).map (convert env (maxBm env hits)))
          = (ranked env hits).map (convert env (maxBm env hits)) :=
        (sortsStably_stableSort _).unique ⟨.refl _, hsorted, fun _ => rfl⟩
      rw [List.flatten_singleton, hsame, List.map_take]
    · intro shard hshard
      rw [List.mem_singleton.mp hshard]
      exact ranked_sorted env hits

/-! ## Better hits -/

/-- As good a score, as much authority, and not older. -/
structure Dominates (env : RescoreEnv K) (a b : SearchHit K) : Prop where
  score : b.score ≤ a.score
  authority : (env.authority b.url).getD 0 ≤ (env.authority a.url).getD 0
  fetchTime : b.fetchTime ≤ a.fetchTime

section Dominates
variable [IsStrictOrderedRing K] {env : RescoreEnv K} {a b : SearchHit K}

theorem maxBm_nonneg (env : RescoreEnv K) (hits : List (SearchHit K)) : 0 ≤ maxBm env hits := by
  have hleast : 0 ≤ env.f32.round (1 / 1000000) := env.f32.nonneg (by positivity)
  exact hleast.trans (le_max_right _ _)

/-- **Each part counts in favour**, and no rounding changes that. -/
theorem Dominates.rescored_le (h : Dominates env a b) (hpow : Antitone env.halfPow)
    {maxBm : K} (hmax : 0 ≤ maxBm) : rescored env maxBm b ≤ rescored env maxBm a := by
  have hweight : ∀ {w x y : K}, 0 ≤ w → x ≤ y →
      env.f64.round (env.f64.round w * x) ≤ env.f64.round (env.f64.round w * y) :=
    fun hw hxy => env.f64.mono (mul_le_mul_of_nonneg_left hxy (env.f64.nonneg hw))
  have hbm25 := env.f32.mono (div_le_div_of_nonneg_right h.score hmax)
  have hage : max (env.now - a.fetchTime) 0 ≤ max (env.now - b.fetchTime) 0 := by
    have hfetch := h.fetchTime
    omega
  have hround := env.f64.mono (Int.cast_le.mpr hage : ((_ : Int) : K) ≤ _)
  have hhalf : (0 : K) ≤ env.f64.round halfLifeSecs :=
    env.f64.nonneg (Int.cast_nonneg (by decide))
  have hrecency := hpow (env.f64.mono (div_le_div_of_nonneg_right hround hhalf))
  have hpositive : 0 < halfLifeSecs := by decide
  simp only [rescored, if_pos hpositive]
  refine env.f32.mono (env.f64.mono (add_le_add (env.f64.mono (add_le_add (env.f64.mono
    (add_le_add (hweight ?_ hbm25) (hweight ?_ h.authority))) (le_refl _))) (hweight ?_ hrecency)))
  · positivity
  · positivity
  · positivity

/-- **How hits are ranked.** For every list of hits, with times as in `now_sub_fetchTime_i64`,
and every rounding of the floats: the results are the first `k` of all hits by descending new
score, and a hit that is as good as a later one in score, authority and time stays before
it. -/
theorem rescore_ranks (env : RescoreEnv K) (hpow : Antitone env.halfPow)
    (hits : List (SearchHit K)) (k : Nat) :
    ∃ order : List (SearchHit K), order.Perm hits ∧
      rescoreAndConvert env hits k
        = some ((order.take k).map (convert env (maxBm env hits))) ∧
      (order.map (convert env (maxBm env hits))).Pairwise (fun a b => b.score ≤ a.score) ∧
      ∀ a b, [a, b].Sublist hits → Dominates env a b → [a, b].Sublist order := by
  refine ⟨ranked env hits, ranked_perm env hits, rescoreAndConvert_eq env hits k,
    ranked_sorted env hits, fun a b hab hdominates => ?_⟩
  exact List.pair_sublist_insertionSort
    (hdominates.rescored_le hpow (maxBm_nonneg env hits)) hab

end Dominates

/-- Two pages of equal score, the first of them fetched a week ago, and one of a lower. -/
def weekApart : List (SearchHit ℚ) :=
  [⟨"old".toList, "gurt://a.b/old".toList, "a.b".toList, 0, 2⟩,
    ⟨"new".toList, "gurt://a.b/new".toList, "a.b".toList, 604800, 2⟩,
    ⟨"last".toList, "gurt://a.b/last".toList, "a.b".toList, 604800, 1⟩]

/-- Exact numbers, no authorities; the powers are those of whole half-lives. -/
def exactEnv : RescoreEnv ℚ where
  f32 := ⟨id, monotone_id, rfl⟩
  f64 := ⟨id, monotone_id, rfl⟩
  authority _ := none
  halfPow x := (1 / 2) ^ ⌊x⌋₊
  now := 604800

theorem rescore_ranks_weekApart :
    ∃ order : List (SearchHit ℚ), order.Perm weekApart ∧
      rescoreAndConvert exactEnv weekApart 10
        = some ((order.take 10).map (convert exactEnv (maxBm exactEnv weekApart))) ∧
      (order.map (convert exactEnv (maxBm exactEnv weekApart))).Pairwise
        (fun a b => b.score ≤ a.score) ∧
      ∀ a b, [a, b].Sublist weekApart → Dominates exactEnv a b → [a, b].Sublist order :=
  rescore_ranks exactEnv
    (fun _ _ hxy => pow_le_pow_of_le_one (by norm_num) (by norm_num) (Nat.floor_mono hxy))
    weekApart 10

end Gurted.Router
