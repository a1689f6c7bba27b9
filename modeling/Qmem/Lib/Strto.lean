import Qmem.Lib.JsonDoc

/-!
# Numbers in a string (`stdlib.h`, `ctype.h`)
-/

namespace CLib

/-- `isspace` in the C locale. -/
def isspace (c : UInt8) : Bool := c == 0x20 || (0x09 ≤ c && c ≤ 0x0d)

/-- `strtoll(s, NULL, 10)`. -/
def strtoll (s : Bytes) : Int64 :=
  let s := s.dropWhile isspace
  let digits := if s.head? = some 0x2d ∨ s.head? = some 0x2b then s.tail else s
  let n : Int := Json.natValue (digits.takeWhile Json.isDigit)
  .ofInt (max (-2 ^ 63) (min (2 ^ 63 - 1) (if s.head? = some 0x2d then -n else n)))

def atoll (s : Bytes) : Int64 := strtoll s

/-- `atoi`: the result of `strtol` as an `int`, where a `long` has 64 bits. -/
def atoi (s : Bytes) : Int32 := (strtoll s).toInt32

/-- What `strtoul` makes of a sign and the number behind it. -/
def ulong (negative : Bool) (n : Nat) : UInt64 :=
  if n ≥ 2 ^ 64 then -1 else if negative then -UInt64.ofNat n else .ofNat n

/-- `strtoul(s, NULL, 10)`. -/
def strtoul (s : Bytes) : UInt64 :=
  let s := s.dropWhile isspace
  let digits := if s.head? = some 0x2d ∨ s.head? = some 0x2b then s.tail else s
  ulong (s.head? = some 0x2d) (Json.natValue (digits.takeWhile Json.isDigit))

end CLib
