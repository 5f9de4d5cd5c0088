import Gurted.Std.Str

/-!
# Unsigned integers in text and 64-bit arithmetic
-/

namespace Gurted

namespace Str

/-- The value of a string of ASCII digits; `none` when it holds anything else. -/
def digitsValue (s : Str) : Option Nat :=
  s.foldlM (fun n c => if c.isDigit then some (n * 10 + (c.toNat - '0'.toNat)) else none) 0

/-- One leading `+` removed. -/
def stripPlus : Str → Str
  | '+' :: s => s
  | s => s

/-- `str::parse` at an unsigned type of `w` bits: an optional `+`, at least one
digit, and a value that fits. -/
def parseUnsigned (w : Nat) (s : Str) : Option Nat :=
  if (stripPlus s).isEmpty then none else (digitsValue (stripPlus s)).filter (· < 2 ^ w)

/-- `str::parse::<usize>` on the 64-bit targets the server is built for. -/
def parseUsize (s : Str) : Option Nat := parseUnsigned 64 s

/-- `str::parse::<u64>`. -/
def parseU64 (s : Str) : Option Nat := parseUnsigned 64 s

/-- `str::parse::<u16>`. -/
def parseU16 (s : Str) : Option Nat := parseUnsigned 16 s

theorem parseUnsigned_lt {w n : Nat} {s : Str} (h : parseUnsigned w s = some n) : n < 2 ^ w := by
  rw [parseUnsigned] at h
  split at h
  · cases h
  · exact of_decide_eq_true (Option.filter_eq_some_iff.mp h).2

/-- How `format!` writes an unsigned integer. -/
def ofNat (n : Nat) : Str := Nat.toDigits 10 n

theorem isDigit_ofNat {n : Nat} {c : Char} (h : c ∈ ofNat n) : c.isDigit = true :=
  Nat.isDigit_of_mem_toDigits (by omega) (by omega) h

theorem ofNat_ne_nil (n : Nat) : ofNat n ≠ [] := Nat.toDigits_ne_nil

theorem isWhitespace_of_isDigit {c : Char} (h : c.isDigit = true) : isWhitespace c = false := by
  have hrange : 48 ≤ c.toNat ∧ c.toNat ≤ 57 := Char.isDigit_iff_toNat.mp h
  simp only [isWhitespace, Bool.or_eq_false_iff, Bool.and_eq_false_iff, decide_eq_false_iff_not,
    beq_eq_false_iff_ne]
  omega

theorem noWs_ofNat (n : Nat) : ∀ c ∈ ofNat n, isWhitespace c = false := by
  intro c hc
  exact isWhitespace_of_isDigit (isDigit_ofNat hc)

theorem digitsValue_of_isDigit {s : Str} (h : ∀ c ∈ s, c.isDigit = true) :
    digitsValue s = some (Nat.ofDigitChars 10 s 0) := by
  have hfold : ∀ acc : Nat, s.foldlM (fun n c =>
      if c.isDigit then some (n * 10 + (c.toNat - '0'.toNat)) else none) acc
        = some (Nat.ofDigitChars 10 s acc) := by
    induction s with
    | nil => intro acc; rfl
    | cons c s ih =>
      intro acc
      rw [List.foldlM_cons, if_pos (h c (by simp)), Nat.ofDigitChars_cons]
      show s.foldlM _ (acc * 10 + (c.toNat - '0'.toNat)) = _
      rw [ih fun d hd => h d (by simp [hd]), Nat.mul_comm acc 10]
  exact hfold 0

/-- What was written is read back. -/
theorem parseUnsigned_ofNat {w n : Nat} (h : n < 2 ^ w) : parseUnsigned w (ofNat n) = some n := by
  have hplus : stripPlus (ofNat n) = ofNat n := by
    rw [stripPlus.eq_def]
    split
    · next t heq =>
      have hdigit : Char.isDigit '+' = true := isDigit_ofNat (heq ▸ List.mem_cons_self ..)
      cases hdigit
    · rfl
  have hempty : (ofNat n).isEmpty = false := by simpa using ofNat_ne_nil n
  rw [parseUnsigned, hplus, hempty, if_neg (by simp),
    digitsValue_of_isDigit fun c hc => isDigit_ofNat hc, ofNat, Nat.ofDigitChars_ten_toDigits]
  simp [h]

end Str

/-- `usize` addition of a release build (wrapping at `2 ^ 64`). -/
def usizeAdd (a b : Nat) : Nat := (a + b) % 2 ^ 64

/-- `usize` multiplication of a release build. -/
def usizeMul (a b : Nat) : Nat := a * b % 2 ^ 64

theorem usizeAdd_eq {a b : Nat} (h : a + b < 2 ^ 64) : usizeAdd a b = a + b :=
  Nat.mod_eq_of_lt h

/-- `u64::saturating_mul`. -/
def saturatingMul (a b : UInt64) : UInt64 := UInt64.ofNatClamp (a.toNat * b.toNat)

/-- `u64::saturating_add`. -/
def saturatingAdd (a b : UInt64) : UInt64 := UInt64.ofNatClamp (a.toNat + b.toNat)

/-- `a + b` on `u64` where an overflow panics: `none` is the panic. -/
def checkedAdd (a b : UInt64) : Option UInt64 :=
  if a.toNat + b.toNat < 2 ^ 64 then some (a + b) else none

theorem toNat_ofNatClamp (n : Nat) : (UInt64.ofNatClamp n).toNat = min n (2 ^ 64 - 1) := by
  by_cases h : n < UInt64.size
  · rw [UInt64.toNat_ofNatClamp_of_lt h]
    simp only [UInt64.size] at h
    omega
  · rw [UInt64.toNat_ofNatClamp_of_le (by omega)]
    simp only [UInt64.size] at h ⊢
    omega

theorem toNat_saturatingMul (a b : UInt64) :
    (saturatingMul a b).toNat = min (a.toNat * b.toNat) (2 ^ 64 - 1) :=
  toNat_ofNatClamp _

theorem toNat_saturatingAdd (a b : UInt64) :
    (saturatingAdd a b).toNat = min (a.toNat + b.toNat) (2 ^ 64 - 1) :=
  toNat_ofNatClamp _

theorem checkedAdd_eq_some {a b : UInt64} (h : a.toNat + b.toNat < 2 ^ 64) :
    ∃ c, checkedAdd a b = some c ∧ c.toNat = a.toNat + b.toNat := by
  refine ⟨a + b, if_pos h, ?_⟩
  rw [UInt64.toNat_add, Nat.mod_eq_of_lt h]

end Gurted
