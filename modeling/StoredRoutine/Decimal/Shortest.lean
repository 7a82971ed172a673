/-!
# Shortest decimals

The decimal with the fewest digits inside an interval, and among those the nearest to a given
value of the interval: the text of a binary floating-point number is the shortest decimal in the
interval of reals that round to it.

Numbers are exact. The ends of an interval and its value are whole multiples of `1 / unit`, and
a decimal is `digits * 10 ^ exponent`.
-/

namespace StoredRoutine

/-- The number `digits * 10 ^ exponent`. -/
structure Decimal where
  digits : Nat
  exponent : Int
  deriving DecidableEq, Repr

namespace Decimal

/-- An interval around a value, in units of `1 / unit`. Its ends belong to it if `closed`. -/
structure Interval where
  low : Nat
  value : Nat
  high : Nat
  unit : Nat
  closed : Bool
  deriving DecidableEq, Repr

namespace Interval

/-- What the bounds and the value of the interval are multiplied by to be compared with the
multiples of `gridStep e`. -/
def gridScale (e : Int) : Nat := Nat.pow 10 (-e).toNat

/-- One step of the grid of multiples of `10 ^ e`. -/
def gridStep (i : Interval) (e : Int) : Nat := i.unit * Nat.pow 10 e.toNat

/-- Does the interval hold `n * 10 ^ e`? -/
def holds (i : Interval) (e : Int) (n : Nat) : Bool :=
  let low := i.low * gridScale e
  let high := i.high * gridScale e
  let point := n * i.gridStep e
  if i.closed then low ≤ point && point ≤ high else low < point && point < high

/-- The multiple of `10 ^ e` in the interval that is nearest to its value, the upper one of two
that are equally near. Only the two neighbours of the value have to be tried. -/
def nearest? (i : Interval) (e : Int) : Option Nat :=
  let value := i.value * gridScale e
  let step := i.gridStep e
  let below := value / step
  match i.holds e below, i.holds e (below + 1) with
  | false, false => none
  | true, false => some below
  | false, true => some (below + 1)
  | true, true => some (if 2 * (value % step) < step then below else below + 1)

/-- The shortest decimal in the interval, looked for on the grids `10 ^ e`, `10 ^ (e - 1)`, … of
which there are `count`. -/
def shortestFrom? (i : Interval) (e : Int) : Nat → Option Decimal
  | 0 => none
  | count + 1 => match i.nearest? e with
    | some n => some ⟨n, e⟩
    | none => shortestFrom? i (e - 1) count

end Interval

/-- The decimal in positional notation: without a fraction no point is written, and without a
whole part a zero is. -/
def positional (d : Decimal) : String :=
  let digits := (Nat.repr d.digits).toList
  let places := (-d.exponent).toNat
  let zeros (n : Nat) : List Char := List.replicate n '0'
  String.ofList <|
    if places = 0 then digits ++ zeros d.exponent.toNat
    else if places < digits.length then
      digits.take (digits.length - places) ++ '.' :: digits.drop (digits.length - places)
    else '0' :: '.' :: zeros (places - digits.length) ++ digits

end Decimal

end StoredRoutine
