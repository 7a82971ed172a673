import StoredRoutine.Decimal.Shortest

/-!
# Double-precision numbers

A `Binary64` is a number of the IEEE 754 format of that name, given by its bits, so that two of
them are equal only if nothing tells them apart: the zeros of either sign are different, and a
NaN equals itself.

`Binary64.text` writes a number with the fewest digits that read back as the same number.
-/

namespace StoredRoutine

/-- A double-precision number, given by its 64 bits. -/
structure Binary64 where
  bits : UInt64
  deriving DecidableEq, Repr

namespace Binary64

/-- Is the sign bit set? -/
def isNegative (x : Binary64) : Bool := Nat.pow 2 63 ≤ x.bits.toNat

/-- The eleven bits of the exponent. -/
def exponentField (x : Binary64) : Nat := x.bits.toNat / Nat.pow 2 52 % Nat.pow 2 11

/-- The 52 bits of the fraction. -/
def fraction (x : Binary64) : Nat := x.bits.toNat % Nat.pow 2 52

/-- The reals that round to a finite positive number, in units of `2 ^ -1076`. The half unit
below a power of two is half as wide, except for the smallest ones. The ends round to the number
if its last bit is zero. -/
def rounding (x : Binary64) : Decimal.Interval :=
  let isNormal := x.exponentField ≠ 0
  let mantissa := if isNormal then Nat.pow 2 52 + x.fraction else x.fraction
  let quarter := Nat.pow 2 (x.exponentField - 1)
  let value := 4 * mantissa * quarter
  let isPower := x.fraction = 0 ∧ 1 < x.exponentField
  { low := value - (if isPower then quarter else 2 * quarter)
    value
    high := value + 2 * quarter
    unit := Nat.pow 2 1076
    closed := mantissa % 2 = 0 }

/-- The shortest decimal that reads back as a finite positive number. No grid coarser than
`10 ^ 308` can hold one, and none finer than `10 ^ -324` is needed. -/
def shortest (x : Binary64) : Decimal :=
  (x.rounding.shortestFrom? 308 633).getD ⟨0, 0⟩

/-- The text of a number: the shortest decimal that reads back, always in positional notation. -/
def text (x : Binary64) : String :=
  if x.exponentField = 2047 ∧ x.fraction ≠ 0 then "NaN"
  else
    let sign := if x.isNegative then "-" else ""
    let size :=
      if x.exponentField = 2047 then "inf"
      else if x.exponentField = 0 ∧ x.fraction = 0 then "0"
      else x.shortest.positional
    sign ++ size

/-- Is the decimal so large that it rounds to infinity? Half a unit above the largest finite
number is, since that number is odd. What a glance at the number of digits decides is not
computed. -/
def isTooLarge (d : Decimal) : Bool :=
  let magnitude := (Nat.repr d.digits).length + d.exponent
  if d.digits = 0 ∨ magnitude < 300 then false
  else if 310 < magnitude then true
  else
    (Nat.pow 2 1024 - Nat.pow 2 970) * Nat.pow 10 (-d.exponent).toNat
      ≤ d.digits * Nat.pow 10 d.exponent.toNat

end Binary64

end StoredRoutine
