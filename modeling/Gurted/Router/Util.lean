import Gurted.Std.Utf8

/-!
# Router helpers (`gurtd/src/router/util.rs`)
-/

namespace Gurted.Router

open Gurted

/-- The value of a hexadecimal digit. -/
def hexDigit (b : UInt8) : Option Nat :=
  if 48 ≤ b && b ≤ 57 then some (b.toNat - 48)
  else if 65 ≤ b && b ≤ 70 then some (b.toNat - 55)
  else if 97 ≤ b && b ≤ 102 then some (b.toNat - 87)
  else none

/-- `percent_decode_str`: `%` with two hexadecimal digits is one byte, every
other byte stands for itself. -/
def percentBytes : Bytes → Bytes
  | [] => []
  | [b] => [b]
  | [b, c] => [b, c]
  | b :: c :: d :: bs =>
      match hexDigit c, hexDigit d with
      | some hi, some lo =>
          if b == 37 then UInt8.ofNat (hi * 16 + lo) :: percentBytes bs
          else b :: percentBytes (c :: d :: bs)
      | _, _ => b :: percentBytes (c :: d :: bs)

/-- `percent_decode`. -/
def percentDecode (s : Str) : Str := fromUtf8Lossy (percentBytes (utf8 s))

/-! ## `escape_html` -/

def escapeChar (c : Char) : Str :=
  if c = '&' then "&amp;".toList
  else if c = '<' then "&lt;".toList
  else if c = '>' then "&gt;".toList
  else if c = '"' then "&quot;".toList
  else if c = '\'' then "&#39;".toList
  else [c]

/-- `escape_html`. -/
def escapeHtml (s : Str) : Str := s.flatMap escapeChar

/-- The five entities replaced back, from left to right. -/
def unescapeHtml : Str → Str
  | '&' :: 'a' :: 'm' :: 'p' :: ';' :: s => '&' :: unescapeHtml s
  | '&' :: 'l' :: 't' :: ';' :: s => '<' :: unescapeHtml s
  | '&' :: 'g' :: 't' :: ';' :: s => '>' :: unescapeHtml s
  | '&' :: 'q' :: 'u' :: 'o' :: 't' :: ';' :: s => '"' :: unescapeHtml s
  | '&' :: '#' :: '3' :: '9' :: ';' :: s => '\'' :: unescapeHtml s
  | c :: s => c :: unescapeHtml s
  | [] => []

/-- A character is one of the five or stands for itself. -/
theorem escapeChar_cases (c : Char) :
    (c = '&' ∧ escapeChar c = "&amp;".toList) ∨ (c = '<' ∧ escapeChar c = "&lt;".toList) ∨
    (c = '>' ∧ escapeChar c = "&gt;".toList) ∨ (c = '"' ∧ escapeChar c = "&quot;".toList) ∨
    (c = '\'' ∧ escapeChar c = "&#39;".toList) ∨
    ((c ≠ '&' ∧ c ≠ '<' ∧ c ≠ '>' ∧ c ≠ '"') ∧ escapeChar c = [c]) := by
  by_cases hamp : c = '&'
  · exact .inl ⟨hamp, by rw [hamp]; rfl⟩
  by_cases hlt : c = '<'
  · exact .inr (.inl ⟨hlt, by rw [hlt]; rfl⟩)
  by_cases hgt : c = '>'
  · exact .inr (.inr (.inl ⟨hgt, by rw [hgt]; rfl⟩))
  by_cases hquot : c = '"'
  · exact .inr (.inr (.inr (.inl ⟨hquot, by rw [hquot]; rfl⟩)))
  by_cases hapos : c = '\''
  · exact .inr (.inr (.inr (.inr (.inl ⟨hapos, by rw [hapos]; rfl⟩))))
  · refine .inr (.inr (.inr (.inr (.inr ⟨⟨hamp, hlt, hgt, hquot⟩, ?_⟩))))
    rw [escapeChar, if_neg hamp, if_neg hlt, if_neg hgt, if_neg hquot, if_neg hapos]

/-- Without an `&` in front nothing is replaced. -/
theorem unescapeHtml_cons {c : Char} (h : c ≠ '&') (s : Str) :
    unescapeHtml (c :: s) = c :: unescapeHtml s := by
  rw [unescapeHtml]
  all_goals
    intro t hc
    exact absurd hc h

theorem unescapeHtml_escapeChar (c : Char) (s : Str) :
    unescapeHtml (escapeChar c ++ s) = c :: unescapeHtml s := by
  rcases escapeChar_cases c with
    ⟨rfl, he⟩ | ⟨rfl, he⟩ | ⟨rfl, he⟩ | ⟨rfl, he⟩ | ⟨rfl, he⟩ | ⟨hc, he⟩
  · rw [he]
    exact unescapeHtml.eq_1 s
  · rw [he]
    exact unescapeHtml.eq_2 s
  · rw [he]
    exact unescapeHtml.eq_3 s
  · rw [he]
    exact unescapeHtml.eq_4 s
  · rw [he]
    exact unescapeHtml.eq_5 s
  · rw [he]
    exact unescapeHtml_cons hc.1 s

/-- **Escaping loses nothing.** -/
theorem unescapeHtml_escapeHtml (s : Str) : unescapeHtml (escapeHtml s) = s := by
  induction s with
  | nil => rfl
  | cons c s ih => rw [escapeHtml, List.flatMap_cons, unescapeHtml_escapeChar, ← escapeHtml, ih]

end Gurted.Router
