import Membrane.Binary.Basic

/-!
# Shortest decimal digits

The decimal form of a binary number is the shortest numeral that rounds back to it. Of the
numerals of that length the nearest to the number is taken, and of two equally near ones the
larger.

The numbers that round to `x` form an interval around it, whose ends belong to it when the
significand of `x` is even. Interval, number and decimal grids are compared as naturals over the
common denominator `4 · 2 ^ f.scale`.

Source: specification, section 2: the string conversion of numbers in "Script value model".

## Main definitions

* `Decimal`: a digit string with the position of its point.
* `Binary.Interval`: the numbers that round to a given one.
* `Binary.shortest`: the shortest decimal of a positive finite number.
-/

namespace Membrane

/-- The decimal numeral `0.d₁d₂… · 10 ^ point`, whose first and last digits are not zero. -/
structure Decimal where
  /-- The digits, most significant first. -/
  digits : List Char
  /-- The position of the point, counted from the front of the digits. -/
  point : Int
  deriving DecidableEq

namespace Decimal

/-- The numeral `count · 10 ^ exponent` with the zeros at its end dropped. -/
def ofGrid (count : Nat) (exponent : Int) : Decimal :=
  let digits := Nat.toDigits 10 count
  ⟨(digits.reverse.dropWhile (· == '0')).reverse, digits.length + exponent⟩

end Decimal

namespace Binary

/-- The numbers that round to a positive finite number, over the denominator `4 · 2 ^ f.scale`. -/
structure Interval where
  /-- The least number that rounds to it. -/
  low : Nat
  /-- The number itself. -/
  value : Nat
  /-- The greatest number that rounds to it. -/
  high : Nat
  /-- Whether the ends round to it. -/
  closed : Bool

namespace Interval

/-- Membership of `n / factor` in the interval. -/
def contains (i : Interval) (factor n : Nat) : Bool :=
  if i.closed then decide (i.low * factor ≤ n) && decide (n ≤ i.high * factor)
  else decide (i.low * factor < n) && decide (n < i.high * factor)

/-- The grid point of spacing `10 ^ exponent` chosen for the interval: of the value's two
neighbours on the grid that lie in the interval, the nearer one, and the upper one on a tie. The
argument `unit` is the common denominator of the interval. -/
def onGrid? (i : Interval) (unit : Nat) (exponent : Int) : Option Nat :=
  let factor := tenPow (-exponent).toNat
  let spacing := unit * tenPow exponent.toNat
  let below := i.value * factor / spacing
  let above := below + 1
  let belowIn := i.contains factor (below * spacing) && below != 0
  let aboveIn := i.contains factor (above * spacing)
  if belowIn && aboveIn then
    some (if above * spacing - i.value * factor ≤ i.value * factor - below * spacing
      then above else below)
  else if belowIn then some below
  else if aboveIn then some above
  else none

/-- The first of finer and finer grids, from spacing `10 ^ exponent` downward, with a point in the
interval. -/
def search (i : Interval) (unit : Nat) : Nat → Int → Decimal
  | 0, exponent => Decimal.ofGrid 0 exponent
  | fuel + 1, exponent =>
    match i.onGrid? unit exponent with
    | some count => Decimal.ofGrid count exponent
    | none => search i unit fuel (exponent - 1)

end Interval

variable {f : Format}

/-- The interval of numbers that round to a positive finite number. Below a power of two the
neighbours are half as far apart. -/
def interval (x : Binary f) : Interval :=
  let m := x.significand
  let unit := twoPow x.exponent
  let low := if m = twoPow f.fractionBits && x.exponent != 0 then (4 * m - 1) * unit
    else (4 * m - 2) * unit
  ⟨low, 4 * m * unit, (4 * m + 2) * unit, m % 2 = 0⟩

/-- The number of decimal digits of the integral part of `num / den`. -/
def integralDigits (num den : Nat) : Nat := (Nat.toDigits 10 (num / den)).length

/-- The shortest decimal that rounds to a positive finite number. Grids are tried from a spacing
above the number on: `10 ^ 3 < 2 ^ 10` bounds the number of leading zeros from below. -/
def shortest (x : Binary f) : Decimal :=
  let unit := 4 * twoPow f.scale
  let lead : Int := if x.interval.value < unit
    then 1 - (Nat.log2 (unit / x.interval.value) * 3 / 10 : Nat)
    else integralDigits x.interval.value unit
  x.interval.search unit 400 lead

end Binary

end Membrane
