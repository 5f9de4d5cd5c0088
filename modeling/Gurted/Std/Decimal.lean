import Mathlib.Algebra.Order.Field.Rat
import Mathlib.Data.Rat.Lemmas
import Mathlib.Tactic.NormNum
import Mathlib.Tactic.Ring
import Gurted.Std.Float

/-!
# Decimal numbers without rounding

Writing with six places and parsing, on exact values: a number that has no more than
six places is read back as it was written.
-/

namespace Gurted

/-- A floating-point value whose numbers are not rounded. -/
inductive ExactFloat where
  | notANumber
  | infinity (negative : Bool)
  | number (x : ℚ)
  deriving DecidableEq

namespace Str

/-- `str::parse` at a floating-point type. -/
def parseExact (s : Str) : Option ExactFloat :=
  let negative := s.head? = some '-'
  let body := if negative ∨ s.head? = some '+' then s.tail else s
  if eqIgnoreAsciiCase body "nan".toList then some .notANumber
  else if eqIgnoreAsciiCase body "inf".toList || eqIgnoreAsciiCase body "infinity".toList then
    some (.infinity negative)
  else (decimal body).map fun d =>
    let x : ℚ := d.1 * (10 : ℚ) ^ d.2
    .number (if negative then -x else x)

/-- The millionths `m` as a decimal number. -/
def ofMillionths (m : Nat) : Str :=
  ofNat (m / 10 ^ 6) ++ '.' :: (ofNat (m % 10 ^ 6)).leftpad 6 '0'

/-- `format!("{:.6}")`: rounded to the nearest millionth. -/
def formatSix : ExactFloat → Str
  | .notANumber => "NaN".toList
  | .infinity negative => if negative then "-inf".toList else "inf".toList
  | .number x =>
      let m := divRoundHalfEven (x.num.natAbs * 10 ^ 6) x.den
      (if x < 0 then ['-'] else []) ++ ofMillionths m

end Str

/-- The number of `z` millionths. -/
def ExactFloat.millionths (z : ℤ) : ExactFloat := .number (z / 10 ^ 6)

namespace Str

/-! ## Writing -/

theorem divRoundHalfEven_mul (a : Nat) {b : Nat} (hb : 0 < b) : divRoundHalfEven (a * b) b = a := by
  rw [divRoundHalfEven, Nat.mul_mod_left, Nat.mul_div_cancel _ hb]
  exact if_pos hb

/-- A number of millionths is written as it is. -/
theorem formatSix_millionths (z : ℤ) : formatSix (.millionths z)
    = (if z < 0 then ['-'] else []) ++ ofMillionths z.natAbs := by
  have hnum : ((z : ℚ) / 10 ^ 6).num * 10 ^ 6 = z * ((z : ℚ) / 10 ^ 6).den := by
    have hden : (((z : ℚ) / 10 ^ 6).den : ℚ) ≠ 0 := by
      exact_mod_cast ((z : ℚ) / 10 ^ 6).den_nz
    have hself := Rat.num_div_den ((z : ℚ) / 10 ^ 6)
    rw [div_eq_iff hden] at hself
    have hcast : (((z : ℚ) / 10 ^ 6).num : ℚ) * 10 ^ 6 = z * ((z : ℚ) / 10 ^ 6).den := by
      rw [hself]
      ring
    exact_mod_cast hcast
  have habs : ((z : ℚ) / 10 ^ 6).num.natAbs * 10 ^ 6 = z.natAbs * ((z : ℚ) / 10 ^ 6).den := by
    have hboth := congrArg Int.natAbs hnum
    rw [Int.natAbs_mul, Int.natAbs_mul] at hboth
    simpa using hboth
  have hneg : (z : ℚ) / 10 ^ 6 < 0 ↔ z < 0 := by
    rw [div_lt_iff₀ (by norm_num), zero_mul]
    exact Int.cast_lt_zero
  rw [ExactFloat.millionths, formatSix]
  simp only [habs, divRoundHalfEven_mul _ ((z : ℚ) / 10 ^ 6).den_pos, hneg]

theorem isDigit_leftpad {n : Nat} {s : Str} (h : ∀ c ∈ s, c.isDigit = true) :
    ∀ c ∈ s.leftpad n '0', c.isDigit = true := by
  intro c hc
  rcases List.mem_append.mp hc with hc | hc
  · rw [List.eq_of_mem_replicate hc]
    rfl
  · exact h c hc

/-- What a number is written with. -/
def isNumeral (c : Char) : Bool := c.isDigit || c == '-' || c == '.'

theorem isNumeral_formatSix {z : ℤ} {c : Char} (h : c ∈ formatSix (.millionths z)) :
    isNumeral c = true := by
  have hdigit : c.isDigit = true → isNumeral c = true := by
    intro hd
    rw [isNumeral, hd]
    rfl
  rw [formatSix_millionths, ofMillionths] at h
  rcases List.mem_append.mp h with h | h
  · split at h
    · rw [List.mem_singleton.mp h]
      rfl
    · cases h
  · rcases List.mem_append.mp h with h | h
    · exact hdigit (isDigit_ofNat h)
    · rcases List.mem_cons.mp h with rfl | h
      · rfl
      · exact hdigit (isDigit_leftpad (fun _ hd => isDigit_ofNat hd) c h)

theorem formatSix_ne_nil (z : ℤ) : formatSix (.millionths z) ≠ [] := by
  rw [formatSix_millionths, ofMillionths]
  simp

/-! ## Reading -/

theorem length_ofNat_le {n k : Nat} (h : n < 10 ^ k) (hk : 0 < k) : (ofNat n).length ≤ k :=
  (Nat.length_toDigits_le_iff (by omega) hk).mpr h

/-- Six digits. -/
theorem length_fraction (m : Nat) : ((ofNat (m % 10 ^ 6)).leftpad 6 '0').length = 6 := by
  have hle : (ofNat (m % 10 ^ 6)).length ≤ 6 :=
    length_ofNat_le (Nat.mod_lt _ (by decide)) (by decide)
  rw [List.length_leftpad]
  omega

theorem digitsValue_ofMillionths (m : Nat) :
    digitsValue (ofNat (m / 10 ^ 6) ++ (ofNat (m % 10 ^ 6)).leftpad 6 '0') = some m := by
  have hdigits : ∀ c ∈ ofNat (m / 10 ^ 6) ++ (ofNat (m % 10 ^ 6)).leftpad 6 '0',
      c.isDigit = true := by
    intro c hc
    rcases List.mem_append.mp hc with hc | hc
    · exact isDigit_ofNat hc
    · exact isDigit_leftpad (fun _ hd => isDigit_ofNat hd) c hc
  have hfrac : Nat.ofDigitChars 10 ((ofNat (m % 10 ^ 6)).leftpad 6 '0') 0 = m % 10 ^ 6 := by
    rw [List.leftpad, Nat.ofDigitChars_append, Nat.ofDigitChars_replicate_zero, Nat.mul_zero]
    exact Nat.ofDigitChars_ten_toDigits
  have hwhole : Nat.ofDigitChars 10 (ofNat (m / 10 ^ 6)) 0 = m / 10 ^ 6 :=
    Nat.ofDigitChars_ten_toDigits
  rw [digitsValue_of_isDigit hdigits, Nat.ofDigitChars_append, hwhole,
    Nat.ofDigitChars_eq_ofDigitChars_zero, length_fraction, hfrac, Nat.div_add_mod]

theorem decimal_ofMillionths (m : Nat) : decimal (ofMillionths m) = some (m, -6) := by
  have hwhole : ∀ c ∈ ofNat (m / 10 ^ 6), c.isDigit = true := fun _ hc => isDigit_ofNat hc
  have hfrac : ∀ c ∈ (ofNat (m % 10 ^ 6)).leftpad 6 '0', c.isDigit = true :=
    isDigit_leftpad fun _ hc => isDigit_ofNat hc
  have hlength := length_fraction m
  have hvalue := digitsValue_ofMillionths m
  have hne := ofNat_ne_nil (m / 10 ^ 6)
  rw [ofMillionths]
  generalize (ofNat (m % 10 ^ 6)).leftpad 6 '0' = frac at hfrac hlength hvalue
  generalize ofNat (m / 10 ^ 6) = whole at hwhole hvalue hne
  have htake : (whole ++ '.' :: frac).takeWhile Char.isDigit = whole := by
    rw [List.takeWhile_append_of_pos hwhole]
    simp
  have hdrop : (whole ++ '.' :: frac).dropWhile Char.isDigit = '.' :: frac := by
    rw [List.dropWhile_append_of_pos hwhole]
    rfl
  have hall : frac.takeWhile Char.isDigit = frac := List.takeWhile_eq_self_iff.mpr hfrac
  have hnone : frac.dropWhile Char.isDigit = [] := List.dropWhile_eq_nil_iff.mpr hfrac
  have hempty : whole.isEmpty = false := by simpa using hne
  rw [decimal, htake, hdrop]
  simp only [List.head?_cons, if_true, List.tail_cons, hall, hnone, hempty, Bool.false_and,
    Bool.false_eq_true, if_false, hvalue, Option.bind_some, decimalExponent, Option.map_some,
    hlength]
  rfl

/-- The digits in front decide: not a sign, not a word. -/
theorem exists_digit_ofMillionths (m : Nat) :
    ∃ d t, ofMillionths m = d :: t ∧ d.isDigit = true := by
  obtain ⟨d, t, hdt⟩ := List.exists_cons_of_ne_nil (ofNat_ne_nil (m / 10 ^ 6))
  refine ⟨d, t ++ '.' :: (ofNat (m % 10 ^ 6)).leftpad 6 '0', ?_, ?_⟩
  · rw [ofMillionths, hdt]
    rfl
  · exact isDigit_ofNat (n := m / 10 ^ 6) (by rw [hdt]; simp)

/-- No word is read from the digits. -/
theorem not_eqIgnoreAsciiCase_ofMillionths (m : Nat) {x : Char} {t : Str}
    (hx : x.toLower.isDigit = false) : eqIgnoreAsciiCase (ofMillionths m) (x :: t) = false := by
  obtain ⟨d, s, hds, hd⟩ := exists_digit_ofMillionths m
  have hlower : d.toLower = d := by
    have hrange : 48 ≤ d.toNat ∧ d.toNat ≤ 57 := Char.isDigit_iff_toNat.mp hd
    exact toLower_of_not_upper (by omega)
  rw [hds, eqIgnoreAsciiCase, beq_eq_false_iff_ne]
  intro heq
  have hhead : d.toLower = x.toLower := (List.cons.inj heq).1
  rw [hlower] at hhead
  rw [← hhead, hd] at hx
  cases hx

/-- **What was written is read back.** -/
theorem parseExact_formatSix (z : ℤ) :
    parseExact (formatSix (.millionths z)) = some (.millionths z) := by
  have hnan : eqIgnoreAsciiCase (ofMillionths z.natAbs) "nan".toList = false :=
    not_eqIgnoreAsciiCase_ofMillionths _ rfl
  have hinf : eqIgnoreAsciiCase (ofMillionths z.natAbs) "inf".toList = false :=
    not_eqIgnoreAsciiCase_ofMillionths _ rfl
  have hinfinity : eqIgnoreAsciiCase (ofMillionths z.natAbs) "infinity".toList = false :=
    not_eqIgnoreAsciiCase_ofMillionths _ rfl
  have hsix : (10 : ℚ) ^ (-6 : ℤ) = 1 / 10 ^ 6 := by norm_num
  rw [formatSix_millionths, ExactFloat.millionths]
  by_cases hz : z < 0
  · have habs : ((z.natAbs : ℕ) : ℚ) = -z := by
      rw [Nat.cast_natAbs, abs_of_neg hz, Int.cast_neg]
    rw [if_pos hz]
    simp only [parseExact, List.cons_append, List.nil_append, List.head?_cons, true_or, if_true,
      List.tail_cons, hnan, hinf, hinfinity, Bool.or_self, Bool.false_eq_true, if_false,
      decimal_ofMillionths, Option.map_some, habs, hsix]
    congr 2
    ring
  · have habs : ((z.natAbs : ℕ) : ℚ) = z := by
      rw [Nat.cast_natAbs, abs_of_nonneg (by omega)]
    have hsign : ∀ c : Char, c.isDigit = false → (ofMillionths z.natAbs).head? ≠ some c := by
      intro c hc hhead
      obtain ⟨d, t, hdt, hd⟩ := exists_digit_ofMillionths z.natAbs
      rw [hdt, List.head?_cons, Option.some.injEq] at hhead
      rw [← hhead, hd] at hc
      cases hc
    rw [if_neg hz]
    simp only [parseExact, List.nil_append, hsign '-' rfl, hsign '+' rfl, or_self, if_false, hnan,
      hinf, hinfinity, Bool.or_self, Bool.false_eq_true, decimal_ofMillionths, Option.map_some,
      habs, hsix]
    congr 2
    ring

end Str

end Gurted
