import Membrane.Binary.Basic

/-!
# Rounding to a binary format

Every conversion into a binary format is the exact value rounded once, to the nearest number of
the format and to the even significand on a tie, with overflow to infinity.

Source: specification, section 2: the numeric conversions of "Script value model" and "Conversion
helpers".

## Main definitions

* `roundHalfEven`: a quotient of naturals rounded to the nearest natural.
* `Binary.ofRatio`: the format's number nearest a ratio of naturals.
* `Binary.ofInt`, `Binary.ofDecimal`, `Binary.convert`: integers, decimal numerals and numbers of
  another format.
-/

namespace Membrane

/-- The natural number nearest `num / den`, an exact half going to the even neighbour. -/
def roundHalfEven (num den : Nat) : Nat :=
  let q := num / den
  let r := num % den
  if 2 * r < den then q
  else if den < 2 * r then q + 1
  else if q % 2 = 0 then q else q + 1

namespace Binary

/-- The number of format `f` nearest `± num / den`. The exponent is the least one at which the
significand fits; a significand rounded up to the next power of two carries into the exponent by
the addition alone. -/
def ofRatio (f : Format) (negative : Bool) (num den : Nat) : Binary f :=
  let units := num * twoPow f.scale
  let exponent := Nat.log2 (units / den) - f.fractionBits
  let significand := roundHalfEven units (den * twoPow exponent)
  ofMagnitude f negative (min f.infinity (exponent * twoPow f.fractionBits + significand))

/-- The number nearest an integer. -/
def ofInt (f : Format) (n : Int) : Binary f := ofRatio f (decide (n < 0)) n.natAbs 1

/-- The number nearest `± digits · 10 ^ exponent`. A numeral beyond every finite number is infinite
and one below half of every positive number is zero; both are recognised by their decimal length
before any power is formed. -/
def ofDecimal (negative : Bool) (digits : Nat) (exponent : Int) : Double :=
  let length : Int := (Nat.toDigits 10 digits).length
  if digits = 0 then ofMagnitude _ negative 0
  else if 400 < length + exponent then ofMagnitude _ negative Format.double.infinity
  else if length + exponent < -400 then ofMagnitude _ negative 0
  else if 0 ≤ exponent then ofRatio _ negative (digits * tenPow exponent.toNat) 1
  else ofRatio _ negative digits (tenPow (-exponent).toNat)

/-- The number of format `g` nearest a number of format `f`. -/
def convert {f : Format} (g : Format) (x : Binary f) : Binary g :=
  if x.isNaN then nan g
  else if x.isInfinite then ofMagnitude g x.negative g.infinity
  else ofRatio g x.negative x.absScaled (twoPow f.scale)

end Binary

end Membrane
