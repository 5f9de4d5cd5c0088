import Mathlib.Data.List.Basic
import Gurted.Std.Num

/-!
# Connecting with retries (`gurt-db/src/lib.rs`)

`compute_backoff_ms` on the machine words of the code: the factor doubles in a
saturating loop, the product saturates, and only then the cap applies. `none`
stands for a panic (an overflowing `+` or an empty range).
-/

namespace Gurted.Storage

open Gurted

/-- The random number generator. All that is known of `u64(0..n)` is that it
draws from its range. -/
structure Fastrand where
  u64 : UInt64 → UInt64
  u64_lt : ∀ n, 0 < n.toNat → (u64 n).toNat < n.toNat

/-- `fastrand::u64(0..n)`, which panics on the empty range. -/
def Fastrand.draw (rng : Fastrand) (n : UInt64) : Option UInt64 :=
  if n = 0 then none else some (rng.u64 n)

theorem Fastrand.draw_eq_some (rng : Fastrand) {n : UInt64} (h : 0 < n.toNat) :
    ∃ r, rng.draw n = some r ∧ r.toNat < n.toNat := by
  refine ⟨rng.u64 n, if_neg ?_, rng.u64_lt n h⟩
  intro hzero
  rw [hzero] at h
  cases h

/-! ## The delay of one attempt -/

/-- The loop `for _ in 1..attempt`. -/
def backoffFactor (attempt : UInt32) : UInt64 :=
  (List.range' 1 (attempt.toNat - 1)).foldl (fun factor _ => saturatingMul factor 2) 1

/-- `capped`, the delay before the jitter. -/
def cappedBackoffMs (baseMs : UInt64) (attempt : UInt32) : UInt64 :=
  min (saturatingMul baseMs (backoffFactor attempt)) 30000

def computeBackoffMs (rng : Fastrand) (baseMs : UInt64) (attempt : UInt32) : Option UInt64 := do
  let capped := cappedBackoffMs baseMs attempt
  let upper ← checkedAdd (baseMs / 2) 1
  let jitter ← rng.draw upper
  some (saturatingAdd capped jitter)

/-- One round of the loop, on the saturated value. -/
theorem toNat_saturatingMul_two {f : UInt64} {n : Nat} (h : f.toNat = min n (2 ^ 64 - 1)) :
    (saturatingMul f 2).toNat = min (n * 2) (2 ^ 64 - 1) := by
  rw [toNat_saturatingMul, h]
  show min (min n (2 ^ 64 - 1) * 2) (2 ^ 64 - 1) = _
  omega

/-- The loop over any range doubles once for each element and stops at `u64::MAX`. -/
theorem toNat_foldl_saturatingMul (rounds : List Nat) (f : UInt64) (n : Nat)
    (h : f.toNat = min n (2 ^ 64 - 1)) :
    (rounds.foldl (fun factor _ => saturatingMul factor 2) f).toNat
      = min (n * 2 ^ rounds.length) (2 ^ 64 - 1) := by
  induction rounds generalizing f n with
  | nil => simpa using h
  | cons r rounds ih =>
    have hpow : n * 2 * 2 ^ rounds.length = n * 2 ^ (rounds.length + 1) := by
      rw [Nat.pow_succ, Nat.mul_assoc, Nat.mul_comm 2]
    rw [List.foldl_cons, ih _ (n * 2) (toNat_saturatingMul_two h), List.length_cons, hpow]

theorem toNat_backoffFactor (attempt : UInt32) :
    (backoffFactor attempt).toNat = min (2 ^ (attempt.toNat - 1)) (2 ^ 64 - 1) := by
  have hloop := toNat_foldl_saturatingMul (List.range' 1 (attempt.toNat - 1)) 1 1 rfl
  rw [List.length_range', Nat.one_mul] at hloop
  exact hloop

/-- Where the factor has saturated, the product is beyond the cap unless the
base is zero, so the cap hides the saturation. -/
theorem min_saturated (base n : Nat) :
    min (min (base * min n (2 ^ 64 - 1)) (2 ^ 64 - 1)) 30000 = min 30000 (base * n) := by
  by_cases hn : n ≤ 2 ^ 64 - 1
  · rw [Nat.min_eq_left hn]
    omega
  · have hmax : min n (2 ^ 64 - 1) = 2 ^ 64 - 1 := by omega
    rw [hmax]
    cases base with
    | zero => simp
    | succ b =>
      have hsat : 2 ^ 64 - 1 ≤ (b + 1) * (2 ^ 64 - 1) := Nat.le_mul_of_pos_left _ (by omega)
      have hexact : n ≤ (b + 1) * n := Nat.le_mul_of_pos_left _ (by omega)
      omega

theorem toNat_cappedBackoffMs (baseMs : UInt64) (attempt : UInt32) :
    (cappedBackoffMs baseMs attempt).toNat
      = min 30000 (baseMs.toNat * 2 ^ (attempt.toNat - 1)) := by
  have hmin : ∀ a : UInt64, (min a 30000).toNat = min a.toNat 30000 := by
    intro a
    show (if a ≤ 30000 then a else 30000).toNat = _
    by_cases h : a ≤ 30000
    · rw [if_pos h]
      exact (Nat.min_eq_left (UInt64.le_iff_toNat_le.mp h)).symm
    · rw [if_neg h]
      have hlt : ¬ a.toNat ≤ 30000 := fun hle => h (UInt64.le_iff_toNat_le.mpr hle)
      show 30000 = _
      omega
  rw [cappedBackoffMs, hmin, toNat_saturatingMul, toNat_backoffFactor, min_saturated]

theorem cappedBackoffMs_mono (baseMs : UInt64) {a b : UInt32} (h : a ≤ b) :
    (cappedBackoffMs baseMs a).toNat ≤ (cappedBackoffMs baseMs b).toNat := by
  have hab : a.toNat ≤ b.toNat := UInt32.le_iff_toNat_le.mp h
  have hpow : 2 ^ (a.toNat - 1) ≤ 2 ^ (b.toNat - 1) := Nat.pow_le_pow_right (by omega) (by omega)
  have hmul := Nat.mul_le_mul_left baseMs.toNat hpow
  rw [toNat_cappedBackoffMs, toNat_cappedBackoffMs]
  omega

/-- The draw is at most half the base, so the last addition never saturates. -/
theorem computeBackoffMs_eq_some (rng : Fastrand) (baseMs : UInt64) (attempt : UInt32) :
    ∃ ms jitter, computeBackoffMs rng baseMs attempt = some ms
      ∧ jitter ≤ baseMs.toNat / 2
      ∧ ms.toNat = (cappedBackoffMs baseMs attempt).toNat + jitter := by
  have hhalf : (baseMs / 2).toNat = baseMs.toNat / 2 := UInt64.toNat_div ..
  have hbase : baseMs.toNat < 2 ^ 64 := baseMs.toNat_lt
  have hfits : (baseMs / 2).toNat + (1 : UInt64).toNat < 2 ^ 64 := by
    rw [hhalf]
    show _ + 1 < _
    omega
  obtain ⟨upper, hupper, hval⟩ := checkedAdd_eq_some hfits
  have hval : upper.toNat = baseMs.toNat / 2 + 1 := by rw [hval, hhalf]; rfl
  obtain ⟨jitter, hjitter, hlt⟩ := rng.draw_eq_some (n := upper) (by omega)
  refine ⟨saturatingAdd (cappedBackoffMs baseMs attempt) jitter, jitter.toNat, ?_, by omega, ?_⟩
  · simp only [computeBackoffMs, hupper, hjitter, Option.bind_eq_bind, Option.bind_some]
  · rw [toNat_saturatingAdd, toNat_cappedBackoffMs]
    omega

/-- Every delay is computed without a panic: `min 30000 (base * 2 ^ (attempt - 1))`
in unbounded integers, which grows with the attempt, and at most half the base
on top of it. -/
theorem computeBackoffMs_exact (rng : Fastrand) (baseMs : UInt64) (attempt : UInt32) :
    (cappedBackoffMs baseMs attempt).toNat
        = min 30000 (baseMs.toNat * 2 ^ (attempt.toNat - 1))
      ∧ (∀ later, attempt ≤ later →
          (cappedBackoffMs baseMs attempt).toNat ≤ (cappedBackoffMs baseMs later).toNat)
      ∧ ∃ ms jitter, computeBackoffMs rng baseMs attempt = some ms
          ∧ ms.toNat = (cappedBackoffMs baseMs attempt).toNat + jitter
          ∧ jitter ≤ baseMs.toNat / 2 := by
  obtain ⟨ms, jitter, hms, hle, hval⟩ := computeBackoffMs_eq_some rng baseMs attempt
  refine ⟨toNat_cappedBackoffMs baseMs attempt, ?_, ms, jitter, hms, hval, hle⟩
  intro later hlater
  exact cappedBackoffMs_mono baseMs hlater

/-- A generator for the run below: it always draws the start of the range. -/
def firstOfRange : Fastrand where
  u64 := fun _ => 0
  u64_lt := fun _ h => h

theorem computeBackoffMs_exact_third :
    ∃ ms jitter, computeBackoffMs firstOfRange 200 3 = some ms
      ∧ ms.toNat = 800 + jitter ∧ jitter ≤ 100 :=
  (computeBackoffMs_exact firstOfRange 200 3).2.2

/-! ## The retry loop -/

inductive DbInitError where
  | missingUrl
  | connect (attempts : UInt32) (lastError : Str)
  deriving DecidableEq, Repr

/-- The fields of `DbConfig` the loop reads. -/
structure DbConfig where
  databaseUrl : Option Str
  retryMaxAttempts : UInt32
  retryBaseBackoffMs : UInt64
  deriving DecidableEq, Repr

variable {Pool : Type}

/-- The rounds of `for attempt in 1..=max` that are left, with the delays slept
through. `connect` is what an attempt comes to, a timeout included. -/
def retryLoop (rng : UInt32 → Fastrand) (connect : UInt32 → Except Str Pool) (baseMs : UInt64)
    (max : UInt32) : List UInt32 → Option Str → Option (Except DbInitError Pool × List UInt64)
  | [], lastErr => some (.error (.connect max (lastErr.getD "unknown error".toList)), [])
  | attempt :: rest, _ =>
    match connect attempt with
    | .ok pool => some (.ok pool, [])
    | .error msg =>
      if max ≤ attempt then some (.error (.connect max msg), [])
      else do
        let delay ← computeBackoffMs (rng attempt) baseMs attempt
        let (result, slept) ← retryLoop rng connect baseMs max rest (some msg)
        some (result, delay :: slept)

def attemptsFrom (first count : Nat) : List UInt32 := (List.range' first count).map UInt32.ofNat

def tryConnectWithRetry (cfg : DbConfig) (rng : UInt32 → Fastrand)
    (connect : UInt32 → Except Str Pool) : Option (Except DbInitError Pool × List UInt64) :=
  match cfg.databaseUrl with
  | none => some (.error .missingUrl, [])
  | some _ =>
    let attempts := max cfg.retryMaxAttempts 1
    retryLoop rng connect cfg.retryBaseBackoffMs attempts (attemptsFrom 1 attempts.toNat) none

theorem attemptsFrom_succ (first count : Nat) :
    attemptsFrom first (count + 1) = UInt32.ofNat first :: attemptsFrom (first + 1) count := by
  rw [attemptsFrom, List.range'_succ, List.map_cons, attemptsFrom]

/-- The loop from its round `first` on: no panic, one sleep fewer than there are
rounds left, and every sleep within the cap and half the base. -/
theorem retryLoop_eq_some (rng : UInt32 → Fastrand) (connect : UInt32 → Except Str Pool)
    (baseMs : UInt64) (max : UInt32) (count first : Nat) (lastErr : Option Str)
    (hend : first + count = max.toNat) :
    ∃ result slept,
      retryLoop rng connect baseMs max (attemptsFrom first (count + 1)) lastErr
          = some (result, slept)
        ∧ slept.length ≤ count
        ∧ ∀ ms ∈ slept, ms.toNat ≤ 30000 + baseMs.toNat / 2 := by
  induction count generalizing first lastErr with
  | zero =>
    have hlast : max ≤ UInt32.ofNat first := by
      rw [show first = max.toNat by omega, UInt32.ofNat_toNat]
      exact UInt32.le_refl max
    rw [attemptsFrom_succ, retryLoop]
    cases connect (UInt32.ofNat first) with
    | ok pool => exact ⟨_, [], rfl, by simp, by simp⟩
    | error msg => exact ⟨_, [], if_pos hlast, by simp, by simp⟩
  | succ count ih =>
    rw [attemptsFrom_succ, retryLoop]
    cases connect (UInt32.ofNat first) with
    | ok pool => exact ⟨_, [], rfl, by simp, by simp⟩
    | error msg =>
      have hmax : max.toNat < 2 ^ 32 := max.toNat_lt
      have hmore : ¬ max ≤ UInt32.ofNat first := by
        rw [UInt32.le_iff_toNat_le, UInt32.toNat_ofNat_of_lt' (by simp only [UInt32.size]; omega)]
        omega
      obtain ⟨ms, jitter, hms, hle, hval⟩ :=
        computeBackoffMs_eq_some (rng (UInt32.ofNat first)) baseMs (UInt32.ofNat first)
      obtain ⟨result, slept, hrest, hlen, hbound⟩ := ih (first + 1) (some msg) (by omega)
      refine ⟨result, ms :: slept, ?_, by simpa using hlen, ?_⟩
      · simp only [if_neg hmore, hms, hrest, Option.bind_eq_bind, Option.bind_some]
      · intro d hd
        rcases List.mem_cons.mp hd with rfl | hd
        · rw [hval, toNat_cappedBackoffMs]
          omega
        · exact hbound d hd

/-- Connecting comes to an end without a panic, after at most `max - 1` sleeps. -/
theorem tryConnectWithRetry_eq_some (cfg : DbConfig) (rng : UInt32 → Fastrand)
    (connect : UInt32 → Except Str Pool) :
    ∃ result slept, tryConnectWithRetry cfg rng connect = some (result, slept)
      ∧ slept.length ≤ (max cfg.retryMaxAttempts 1).toNat - 1
      ∧ ∀ ms ∈ slept, ms.toNat ≤ 30000 + cfg.retryBaseBackoffMs.toNat / 2 := by
  rw [tryConnectWithRetry]
  cases cfg.databaseUrl with
  | none => exact ⟨_, [], rfl, by simp, by simp⟩
  | some url =>
    have hpos : 1 ≤ (max cfg.retryMaxAttempts 1).toNat := by
      show 1 ≤ (if cfg.retryMaxAttempts ≤ 1 then 1 else cfg.retryMaxAttempts).toNat
      by_cases h : cfg.retryMaxAttempts ≤ 1
      · rw [if_pos h]
        exact Nat.le_refl _
      · rw [if_neg h]
        have hlt : ¬ cfg.retryMaxAttempts.toNat ≤ 1 := fun hle => h (UInt32.le_iff_toNat_le.mpr hle)
        omega
    have hloop := retryLoop_eq_some rng connect cfg.retryBaseBackoffMs
      (max cfg.retryMaxAttempts 1) ((max cfg.retryMaxAttempts 1).toNat - 1) 1 none (by omega)
    rw [Nat.sub_add_cancel hpos] at hloop
    exact hloop

end Gurted.Storage
