import Gurted.Std.Num

/-!
# `f64` and `Duration`

Parsing an `f64` and turning one into a `Duration`. The arithmetic is that of
the binary64 model of Lean's own `Float`; a `Duration` is a number of
nanoseconds.
-/

namespace Gurted

open Float.Model

/-- `std::time::Duration`. -/
structure Duration where
  nanos : Nat
  deriving DecidableEq, Repr

/-- Nanoseconds of a second. -/
def nanosPerSec : Nat := 1000000000

/-- `Duration::from_secs`. -/
def Duration.fromSecs (n : Nat) : Duration := ⟨n * nanosPerSec⟩

/-- `a / b` rounded to the nearest integer, ties to even. -/
def divRoundHalfEven (a b : Nat) : Nat :=
  let q := a / b
  let r := a % b
  if 2 * r < b then q else if b < 2 * r then q + 1 else q + q % 2

/-- `Duration::from_secs_f64`: the nearest number of nanoseconds. It panics
(`none`) on a negative value, on NaN and from `2 ^ 64` seconds on. -/
def Duration.fromSecsF64 : UnpackedFloat → Option Duration
  | .notANumber => none
  | .infinity _ => none
  | .zero _ => some ⟨0⟩
  | .finite .negative _ _ _ => none
  | .finite .positive m e _ =>
      let den := 2 ^ (-e).toNat
      let num := m * 2 ^ e.toNat
      if num < 2 ^ 64 * den then some ⟨divRoundHalfEven (num * nanosPerSec) den⟩ else none

/-- `f.max(0.0)`; a NaN gives the other argument. -/
def f64MaxZero : UnpackedFloat → UnpackedFloat
  | .notANumber => .zero .positive
  | .infinity .negative => .zero .positive
  | .finite .negative _ _ _ => .zero .positive
  | f => f

namespace Str

/-- The exponent at the end of a decimal number: nothing, or `e`, an optional
sign and digits. -/
def decimalExponent : Str → Option Int
  | [] => some 0
  | c :: s =>
      if c == 'e' || c == 'E' then
        match s with
        | [] => none
        | x :: ds =>
            let digits := if x == '+' || x == '-' then ds else x :: ds
            if digits.isEmpty then none
            else (digitsValue digits).map fun n => if x == '-' then -(n : Int) else n
      else none

/-- An unsigned decimal number as its digits and the power of ten they stand
at: at least one digit before or after an optional point. -/
def decimal (s : Str) : Option (Nat × Int) :=
  let whole := s.takeWhile Char.isDigit
  let rest := s.dropWhile Char.isDigit
  let frac := if rest.head? = some '.' then rest.tail.takeWhile Char.isDigit else []
  let rest := if rest.head? = some '.' then rest.tail.dropWhile Char.isDigit else rest
  if whole.isEmpty && frac.isEmpty then none
  else
    (digitsValue (whole ++ frac)).bind fun n =>
      (decimalExponent rest).map fun e => (n, e - frac.length)

/-- `str::parse::<f64>`: an optional sign, then `inf`, `infinity` or `nan` in any
case or a decimal number, rounded to the nearest binary64 value. -/
def parseF64 (s : Str) : Option UnpackedFloat :=
  let negative := s.head? = some '-'
  let body := if negative ∨ s.head? = some '+' then s.tail else s
  let magnitude :=
    if eqIgnoreAsciiCase body "nan".toList then some .notANumber
    else if eqIgnoreAsciiCase body "inf".toList || eqIgnoreAsciiCase body "infinity".toList then
      some (.infinity .positive)
    else (decimal body).map fun d => (Float.Model.ofScientific d.1 d.2).unpack
  magnitude.map fun f => if negative then f.neg else f

example : (parseF64 "2.5".toList).bind Duration.fromSecsF64 = some ⟨2500000000⟩ := by
  decide +kernel

end Str

end Gurted
