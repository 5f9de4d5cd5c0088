import Gurted.Std.Str

/-!
# Slices at byte offsets

`find` returns a byte offset and the slices take one. `exists_of_find` and
`exists_of_find_lower` turn an offset that was found into the parts of the string
around it; on those parts the slices compute and do not panic.
-/

namespace Gurted.Str

open Gurted.Lib

/-! ## Byte lengths -/

@[simp] theorem byteLen_nil : byteLen [] = 0 := rfl

@[simp] theorem byteLen_cons (c : Char) (s : Str) : byteLen (c :: s) = c.utf8Size + byteLen s :=
  List.sum_cons

theorem byteLen_append (s t : Str) : byteLen (s ++ t) = byteLen s + byteLen t := by
  rw [byteLen, List.map_append, List.sum_append]
  rfl

/-- Both cases of a letter are one byte. -/
theorem utf8Size_toLower (c : Char) : c.toLower.utf8Size = c.utf8Size := by
  by_cases hupper : 65 ≤ c.toNat ∧ c.toNat ≤ 90
  · have hlow : c.toLower.utf8Size = 1 := by
      rw [Char.utf8Size_eq_one_iff, UInt32.le_iff_toNat_le]
      show c.toLower.toNat ≤ 127
      rw [toNat_toLower, if_pos hupper]
      omega
    have hup : c.utf8Size = 1 := by
      rw [Char.utf8Size_eq_one_iff, UInt32.le_iff_toNat_le]
      show c.toNat ≤ 127
      omega
    rw [hlow, hup]
  · rw [toLower_of_not_upper hupper]

theorem byteLen_toAsciiLowercase (s : Str) : byteLen s.toAsciiLowercase = byteLen s := by
  induction s with
  | nil => rfl
  | cons c s ih => rw [toAsciiLowercase_cons, byteLen_cons, byteLen_cons, utf8Size_toLower, ih]

/-! ## Slices -/

theorem splitAtByte_cons (c : Char) (s : Str) (i : Nat) :
    splitAtByte (c.utf8Size + i) (c :: s) = (splitAtByte i s).map fun p => (c :: p.1, p.2) := by
  obtain ⟨k, hk⟩ := Nat.exists_eq_add_one_of_ne_zero (Nat.pos_iff_ne_zero.mp c.utf8Size_pos)
  have hi : k + 1 + i = k + i + 1 := by omega
  have hsub : k + i + 1 - (k + 1) = i := by omega
  rw [hk, hi, splitAtByte, hk, if_pos (by omega), hsub]

/-- A string is split right after any part of it. -/
theorem splitAtByte_append (s t : Str) : splitAtByte (byteLen s) (s ++ t) = some (s, t) := by
  induction s with
  | nil => cases t <;> rfl
  | cons c s ih =>
    rw [byteLen_cons, List.cons_append, splitAtByte_cons, ih]
    rfl

@[simp] theorem sliceFrom_append (s t : Str) : sliceFrom (byteLen s) (s ++ t) = some t := by
  rw [sliceFrom, splitAtByte_append]
  rfl

@[simp] theorem sliceTo_append (s t : Str) : sliceTo (byteLen s) (s ++ t) = some s := by
  rw [sliceTo, splitAtByte_append]
  rfl

/-- The slice behind two parts. -/
theorem sliceFrom_append_append (s t u : Str) :
    sliceFrom (byteLen s + byteLen t) (s ++ (t ++ u)) = some u := by
  rw [← byteLen_append, ← List.append_assoc, sliceFrom_append]

/-- There is no slice behind the end. -/
theorem sliceFrom_of_byteLen_lt {s : Str} {i : Nat} (h : byteLen s < i) : sliceFrom i s = none := by
  rw [sliceFrom, Option.map_eq_none_iff]
  induction s generalizing i with
  | nil =>
    obtain ⟨k, rfl⟩ := Nat.exists_eq_add_one_of_ne_zero (Nat.pos_iff_ne_zero.mp h)
    rfl
  | cons c s ih =>
    rw [byteLen_cons] at h
    obtain ⟨k, rfl⟩ := Nat.exists_eq_add_of_lt h
    have hk : c.utf8Size + byteLen s + k + 1 = c.utf8Size + (byteLen s + k + 1) := by omega
    rw [hk, splitAtByte_cons, ih (by omega)]
    rfl

/-! ## Offsets that were found -/

theorem find_eq_none_iff {s pat : Str} : s.find pat = none ↔ ¬ pat <:+: s := by
  rw [find, Option.map_eq_none_iff, ← Option.not_isSome_iff_eq_none, findSub_isSome_iff]

/-- **The parts around an occurrence.** -/
theorem exists_of_find {s pat : Str} {i : Nat} (h : s.find pat = some i) :
    ∃ u v, s = u ++ (pat ++ v) ∧ findSub pat s = some u.length ∧ i = byteLen u := by
  obtain ⟨k, hk, rfl⟩ := Option.map_eq_some_iff.mp h
  obtain ⟨⟨hlen, v, hv⟩, -⟩ := findSub_eq_some_iff.mp hk
  refine ⟨s.take k, v, ?_, ?_, rfl⟩
  · rw [hv, List.take_append_drop]
  · rw [List.length_take, Nat.min_eq_left hlen, hk]

/-- **The parts around an occurrence in lower case**: the offset found in the lower
case copy is one of the string itself. -/
theorem exists_of_find_lower {s pat : Str} {i : Nat} (h : s.toAsciiLowercase.find pat = some i) :
    ∃ u w v, s = u ++ (w ++ v) ∧ w.toAsciiLowercase = pat ∧
      findSub pat s.toAsciiLowercase = some u.length ∧ i = byteLen u := by
  obtain ⟨u', v', hcut, hfind, rfl⟩ := exists_of_find h
  obtain ⟨u, r, rfl, hu, hr⟩ := List.map_eq_append_iff.mp hcut
  obtain ⟨w, v, rfl, hw, -⟩ := List.map_eq_append_iff.mp hr
  refine ⟨u, w, v, rfl, hw, ?_, ?_⟩
  · rw [hfind, ← hu, List.length_map]
  · rw [← hu]
    exact byteLen_toAsciiLowercase u

/-- A tag that stands behind a text without it is found where the text ends. -/
theorem find_append {pat t s : Str} (hpat : pat ≠ []) (hhead : pat.head hpat ∉ pat.tail)
    (ht : ¬ pat <:+: t) (hs : pat <+: s) : find (t ++ s) pat = some (byteLen t) := by
  have hfirst : findSub pat (t ++ s) = some t.length := by
    cases pat with
    | nil => exact absurd rfl hpat
    | cons x pat => exact findSub_append_of_prefix hhead ht hs
  rw [find, hfirst, Option.map_some, List.take_left]

theorem find_lower_append {pat t s : Str} (hpat : pat ≠ []) (hhead : pat.head hpat ∉ pat.tail)
    (ht : ¬ pat <:+: t.toAsciiLowercase) (hs : pat <+: s.toAsciiLowercase) :
    (t ++ s).toAsciiLowercase.find pat = some (byteLen t) := by
  rw [toAsciiLowercase_append, find_append hpat hhead ht hs, byteLen_toAsciiLowercase]

end Gurted.Str
