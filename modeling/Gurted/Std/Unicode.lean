import Gurted.Std.Str

/-!
# Unicode tables

`char::is_alphanumeric` and `char::to_lowercase` read the Unicode tables of the
standard library. The tables are a parameter; `CharTables` lists what is used of
them, and `latin1` is the part of them for the first 256 characters.
-/

namespace Gurted

/-- Tables for `is_alphanumeric` and `to_lowercase`, with what every version of
Unicode says about them. -/
structure CharTables where
  isAlphanumeric : Char → Bool
  toLowercase : Char → List Char
  alphanumeric_ascii : ∀ c, Str.isAscii c = true → isAlphanumeric c = c.isAlphanum
  not_alphanumeric_ws : ∀ c, Str.isWhitespace c = true → isAlphanumeric c = false
  lowercase_ascii : ∀ c, Str.isAscii c = true → toLowercase c = [c.toLower]
  lowercase_ne_nil : ∀ c, toLowercase c ≠ []
  /-- Of the other characters only the Kelvin sign has an ASCII lower case. -/
  lowercase_not_ascii : ∀ c, Str.isAscii c = false →
    toLowercase c = ['k'] ∨ ∃ x ∈ toLowercase c, Str.isAscii x = false

namespace Str

/-- The letters and digits of ASCII, by number. -/
theorem isAlphanum_iff (c : Char) :
    c.isAlphanum = true ↔
      (48 ≤ c.toNat ∧ c.toNat ≤ 57) ∨ (65 ≤ c.toNat ∧ c.toNat ≤ 90) ∨
        (97 ≤ c.toNat ∧ c.toNat ≤ 122) := by
  have hdigit : c.isDigit = true ↔ 48 ≤ c.toNat ∧ c.toNat ≤ 57 := Char.isDigit_iff_toNat
  show (c.isUpper || c.isLower || c.isDigit) = true ↔ _
  rw [Bool.or_eq_true, Bool.or_eq_true, isUpper_iff, isLower_iff, hdigit]
  omega

end Str

theorem CharTables.isAlphanumeric_toLower (U : CharTables) (c : Char) :
    U.isAlphanumeric c.toLower = U.isAlphanumeric c := by
  by_cases hupper : 65 ≤ c.toNat ∧ c.toNat ≤ 90
  · have hascii : Str.isAscii c = true := by
      rw [Str.isAscii, decide_eq_true_eq]
      omega
    rw [U.alphanumeric_ascii _ hascii,
      U.alphanumeric_ascii _ ((Str.isAscii_toLower c).trans hascii), Bool.eq_iff_iff,
      Str.isAlphanum_iff, Str.isAlphanum_iff, Str.toNat_toLower, if_pos hupper]
    omega
  · rw [Str.toLower_of_not_upper hupper]

/-- Letters and numbers of the upper half of Latin-1. -/
def latin1Alphanumeric (n : Nat) : Bool :=
  n == 0xAA || n == 0xB2 || n == 0xB3 || n == 0xB5 || n == 0xB9 || n == 0xBA
    || (0xBC ≤ n && n ≤ 0xBE) || (0xC0 ≤ n && n ≤ 0xFF && n != 0xD7 && n != 0xF7)

/-- The tables for Latin-1; nothing beyond it is a letter. -/
def CharTables.latin1 : CharTables where
  isAlphanumeric c := c.isAlphanum || latin1Alphanumeric c.toNat
  toLowercase c :=
    if 0xC0 ≤ c.toNat ∧ c.toNat ≤ 0xDE ∧ c.toNat ≠ 0xD7 then [Char.ofNat (c.toNat + 32)]
    else [c.toLower]
  alphanumeric_ascii c h := by
    simp only [Str.isAscii, decide_eq_true_eq] at h
    have hupper : latin1Alphanumeric c.toNat = false := by
      simp only [latin1Alphanumeric, Bool.or_eq_false_iff, Bool.and_eq_false_iff,
        beq_eq_false_iff_ne, decide_eq_false_iff_not]
      omega
    rw [hupper, Bool.or_false]
  not_alphanumeric_ws c h := by
    simp only [Str.isWhitespace, Bool.or_eq_true, Bool.and_eq_true, decide_eq_true_eq,
      beq_iff_eq] at h
    refine Bool.eq_false_iff.mpr fun hc => ?_
    simp only [Bool.or_eq_true, Str.isAlphanum_iff, latin1Alphanumeric, Bool.and_eq_true,
      decide_eq_true_eq, beq_iff_eq] at hc
    omega
  lowercase_ascii c h := by
    simp only [Str.isAscii, decide_eq_true_eq] at h
    exact if_neg (by omega)
  lowercase_ne_nil c := by split <;> simp
  lowercase_not_ascii c h := by
    right
    split
    · next hrange =>
      refine ⟨_, List.mem_singleton.mpr rfl, ?_⟩
      have hvalid : (c.toNat + 32).isValidChar := .inl (by omega)
      have hnat : (Char.ofNat (c.toNat + 32)).toNat = c.toNat + 32 := by
        rw [Char.ofNat, dif_pos hvalid]
        rfl
      rw [Str.isAscii, hnat, decide_eq_false_iff_not]
      omega
    · exact ⟨_, List.mem_singleton.mpr rfl, by rwa [Str.toLower_of_not_ascii h]⟩

end Gurted
