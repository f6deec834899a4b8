/-!
# Binary floating-point numbers

A `Format` fixes the widths of the exponent and fraction fields of an interchange format, and
`Binary f` is one bit pattern of that format. Nothing here rounds: a finite number is an integer
multiple of the format's least positive number, so its value is the integer `Binary.scaled`, and
comparisons are comparisons of integers.

Source: specification, section 2: the floating-point numbers of "Script value model" and "Host
object model".

## Main definitions

* `twoPow`, `tenPow`: the powers that scale significands and decimals.
* `Format.double`, `Format.single`: the two formats host values use.
* `Binary.magnitude`: the pattern without its sign; magnitudes are ordered as the numbers are.
* `Binary.scaled`: the value of a finite number, counted in units of `2 ^ (-f.scale)`.
* `Binary.rank`: the signed magnitude, which orders all numbers that are not NaN.
* `Binary.truncate`: the number with its fractional part dropped.
* `Binary.canonical`: one pattern for both zeros and one for every NaN.
-/

namespace Membrane

/-- The power of two with a given exponent. -/
abbrev twoPow (e : Nat) : Nat := Nat.pow 2 e

/-- The power of ten with a given exponent. -/
abbrev tenPow (e : Nat) : Nat := Nat.pow 10 e

/-- The field widths of a binary interchange format. -/
structure Format where
  /-- Width of the exponent field. -/
  exponentBits : Nat
  /-- Width of the fraction field. -/
  fractionBits : Nat
  deriving DecidableEq

namespace Format

/-- The 64-bit format. -/
def double : Format := ⟨11, 52⟩

/-- The 32-bit format. -/
def single : Format := ⟨8, 23⟩

/-- Width of a whole pattern. -/
def width (f : Format) : Nat := 1 + f.exponentBits + f.fractionBits

/-- The least positive number of the format is `2 ^ (-f.scale)`. -/
def scale (f : Format) : Nat := twoPow (f.exponentBits - 1) - 2 + f.fractionBits

/-- The magnitude of infinity: every larger magnitude is a NaN. -/
def infinity (f : Format) : Nat := (twoPow f.exponentBits - 1) * twoPow f.fractionBits

/-- The magnitude of the quiet NaN. -/
def quietNaN (f : Format) : Nat := f.infinity + twoPow (f.fractionBits - 1)

/-- The weight of the sign bit. -/
def signWeight (f : Format) : Nat := twoPow (f.exponentBits + f.fractionBits)

end Format

/-- One bit pattern of a binary format. -/
structure Binary (f : Format) where
  /-- The pattern, sign bit first. -/
  bits : BitVec f.width
  deriving DecidableEq

/-- A 64-bit number. -/
abbrev Double := Binary Format.double

/-- A 32-bit number. -/
abbrev Single := Binary Format.single

namespace Binary

variable {f : Format}

/-- The pattern with the given sign and magnitude. -/
def ofMagnitude (f : Format) (negative : Bool) (magnitude : Nat) : Binary f :=
  ⟨BitVec.ofNat f.width ((if negative then f.signWeight else 0) + magnitude)⟩

/-- The number zero, with a positive sign. -/
def zero (f : Format) : Binary f := ofMagnitude f false 0

/-- The quiet NaN. -/
def nan (f : Format) : Binary f := ofMagnitude f false f.quietNaN

instance : Inhabited (Binary f) := ⟨zero f⟩

/-- The sign bit. -/
def negative (x : Binary f) : Bool := f.signWeight ≤ x.bits.toNat

/-- The pattern without its sign bit. -/
def magnitude (x : Binary f) : Nat := x.bits.toNat % f.signWeight

/-- A NaN has a magnitude above that of infinity. -/
def isNaN (x : Binary f) : Bool := f.infinity < x.magnitude

/-- An infinity of either sign. -/
def isInfinite (x : Binary f) : Bool := x.magnitude = f.infinity

/-- A number that is neither infinite nor NaN. -/
def isFinite (x : Binary f) : Bool := x.magnitude < f.infinity

/-- A zero of either sign. -/
def isZero (x : Binary f) : Bool := x.magnitude = 0

/-- The significand, with the leading bit that normal numbers leave unwritten. -/
def significand (x : Binary f) : Nat :=
  if x.magnitude / twoPow f.fractionBits = 0 then x.magnitude
  else twoPow f.fractionBits + x.magnitude % twoPow f.fractionBits

/-- The exponent of the significand's last bit, counted from that of the least number. -/
def exponent (x : Binary f) : Nat := x.magnitude / twoPow f.fractionBits - 1

/-- The absolute value of a finite number in units of the least positive number. -/
def absScaled (x : Binary f) : Nat := x.significand * twoPow x.exponent

/-- The value of a finite number in units of the least positive number. -/
def scaled (x : Binary f) : Int := if x.negative then -(x.absScaled : Int) else x.absScaled

/-- The signed magnitude. On numbers other than NaN it is in the order of the values, and both
zeros have rank zero. -/
def rank (x : Binary f) : Int := if x.negative then -(x.magnitude : Int) else x.magnitude

/-- Numeric equality that also holds between NaNs: zeros are equal whatever their sign. -/
def sameNumber (x y : Binary f) : Bool :=
  if x.isNaN || y.isNaN then x.isNaN && y.isNaN else x.rank = y.rank

/-- A finite number with no fractional part. -/
def isIntegral (x : Binary f) : Bool := x.isFinite && x.absScaled % twoPow f.scale = 0

/-- The integer reached by dropping the fractional part of a finite number. -/
def truncate (x : Binary f) : Int :=
  let whole := x.absScaled / twoPow f.scale
  if x.negative then -(whole : Int) else whole

/-- The pattern that stands for a number where zeros are not told apart by sign and all NaNs are
one: positive zero, the quiet NaN, or the number itself. -/
def canonical (x : Binary f) : Binary f :=
  if x.isZero then zero f else if x.isNaN then nan f else x

end Binary

end Membrane
