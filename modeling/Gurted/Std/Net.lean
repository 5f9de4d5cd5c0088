import Gurted.Std.Str

/-!
# Internet addresses

`str::parse::<IpAddr>`, after the parser of `core::net`: IPv4 in dotted decimal, IPv6
in groups of hexadecimal digits with `::` and an IPv4 address at the end.
-/

namespace Gurted

/-- `std::net::IpAddr`. -/
inductive IpAddr where
  | v4 (octets : Vector UInt8 4)
  | v6 (segments : Vector UInt16 8)
  deriving DecidableEq, Repr

namespace IpAddr

def isV4 : IpAddr → Bool
  | v4 _ => true
  | v6 _ => false

/-- `char::to_digit` in base 10 and 16. -/
def digit (radix : Nat) (c : Char) : Option Nat :=
  if c.isDigit then some (c.toNat - 48)
  else if 97 ≤ c.toNat ∧ c.toNat < 87 + radix then some (c.toNat - 87)
  else if 65 ≤ c.toNat ∧ c.toNat < 55 + radix then some (c.toNat - 55)
  else none

/-- `read_number`: at most `maxDigits` digits and a value below `bound`. -/
def readNumber (radix maxDigits : Nat) (allowZeroPrefix : Bool) (bound : Nat) (s : Str) :
    Option (Nat × Str) :=
  let digits := (s.takeWhile fun c => (digit radix c).isSome).filterMap (digit radix)
  let value := digits.foldl (fun n d => n * radix + d) 0
  if digits.isEmpty ∨ maxDigits < digits.length then none
  else if !allowZeroPrefix && digits.headD 1 == 0 && 1 < digits.length then none
  else if value < bound then some (value, s.drop digits.length)
  else none

/-- `read_given_char`. -/
def readGivenChar (c : Char) : Str → Option Str
  | x :: s => if x = c then some s else none
  | [] => none

/-- The separator of `read_separator`, which the first element does without. -/
def readSeparator (sep : Char) (first : Bool) (s : Str) : Option Str :=
  if first then some s else readGivenChar sep s

/-- One octet of an IPv4 address: octal numbers are refused. -/
def readOctet (first : Bool) (s : Str) : Option (Nat × Str) :=
  (readSeparator '.' first s).bind (readNumber 10 3 false (2 ^ 8))

/-- `read_ipv4_addr`. -/
def readIpv4Addr (s : Str) : Option ((Nat × Nat × Nat × Nat) × Str) := do
  let (a, s) ← readOctet true s
  let (b, s) ← readOctet false s
  let (c, s) ← readOctet false s
  let (d, s) ← readOctet false s
  return ((a, b, c, d), s)

/-- `read_groups` into `left` more groups: the groups, and whether the last two are an
IPv4 address. -/
def readGroups : Nat → Bool → Str → List Nat × Bool × Str
  | 0, _, s => ([], false, s)
  | left + 1, first, s =>
      -- an IPv4 address takes two groups
      let ipv4 := if left = 0 then none else (readSeparator ':' first s).bind readIpv4Addr
      match ipv4 with
      | some ((a, b, c, d), s') => ([a * 256 + b, c * 256 + d], true, s')
      | none =>
          match (readSeparator ':' first s).bind (readNumber 16 4 true (2 ^ 16)) with
          | some (group, s') =>
              let (groups, ipv4, s'') := readGroups left false s'
              (group :: groups, ipv4, s'')
          | none => ([], false, s)

/-- `read_ipv6_addr`. -/
def readIpv6Addr (s : Str) : Option (List Nat × Str) :=
  let (head, headIpv4, s) := readGroups 8 true s
  if head.length = 8 then some (head, s)
  else if headIpv4 then none
  else do
    let s ← readGivenChar ':' s
    let s ← readGivenChar ':' s
    let (tail, _, s) := readGroups (8 - (head.length + 1)) true s
    return (head ++ List.replicate (8 - head.length - tail.length) 0 ++ tail, s)

/-- `str::parse::<IpAddr>`. -/
def parse (s : Str) : Option IpAddr :=
  match readIpv4Addr s with
  | some ((a, b, c, d), rest) =>
      if rest.isEmpty then
        some (v4 #v[UInt8.ofNat a, UInt8.ofNat b, UInt8.ofNat c, UInt8.ofNat d])
      else none
  | none =>
      match readIpv6Addr s with
      | some (groups, rest) =>
          if rest.isEmpty then some (v6 (Vector.ofFn fun i => UInt16.ofNat (groups.getD i 0)))
          else none
      | none => none

example : parse "192.168.1.100".toList = some (v4 #v[192, 168, 1, 100]) ∧
    parse "01.2.3.4".toList = none ∧
    parse "2001:db8::1".toList = some (v6 #v[0x2001, 0xdb8, 0, 0, 0, 0, 0, 1]) ∧
    parse "::ffff:1.2.3.4".toList = some (v6 #v[0, 0, 0, 0, 0, 0xffff, 0x102, 0x304]) := by
  decide +kernel

end IpAddr

end Gurted
