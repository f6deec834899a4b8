import Membrane.Binary.Rounding
import Membrane.Text.Blank

/-!
# Reading numerals

A numeral is an optional sign followed by `inf`, `infinity` or `nan` in any case, or by digits with
an optional point and an optional exponent. At least one digit stands before the exponent, on
either side of the point, and at least one in the exponent. Nothing may follow.

The digits of an exponent count only until their value passes `65535`; those after it are read but
change nothing, so the exponent `1048577` is `104857`.

A numeral may be of any length, and reading one takes time proportional to it: a number halfway
between two neighbouring doubles has at most `767` significant digits, so of the digits beyond the
first `800` it only matters whether one of them is not zero.

Source: specification, section 2: the conversion of text to a number in "Script value model".

## Main definitions

* `Numeral.digitsUpTo`: the value of a digit string, as far as it stays within a bound.
* `Numeral.read`: the number nearest a numeral, or `none` for other text.
-/

namespace Membrane.Numeral

/-- An ASCII digit. -/
def isDigit (c : Char) : Bool := '0' ≤ c && c ≤ '9'

/-- A number with one more digit at its end. -/
def appendDigit (n : Nat) (c : Char) : Nat := 10 * n + (c.toNat - '0'.toNat)

/-- The value of a digit string. -/
def digitsValue (cs : List Char) : Nat := cs.foldl appendDigit 0

/-- The value of the shortest start of a digit string that exceeds `bound`, or of all of it if none
does. It is at most `bound` just when the value of the whole string is, and then it is that value:
another digit never makes a number smaller. -/
def digitsUpTo (bound : Nat) (cs : List Char) : Nat :=
  cs.foldl (fun n c => if bound < n then n else appendDigit n c) 0

/-- A sign, if the text starts with one: whether it is a minus, and the rest. -/
def splitSign : List Char → Bool × List Char
  | '-' :: cs => (true, cs)
  | '+' :: cs => (false, cs)
  | cs => (false, cs)

/-- Lower-case form of an ASCII letter. -/
def lowerAscii (c : Char) : Char := if 'A' ≤ c && c ≤ 'Z' then Char.ofNat (c.toNat + 32) else c

/-- The exponent after the digits of a numeral: absent, or `e` with an optional sign and digits up
to the end, of which those after the first value above `65535` are passed over. -/
def readExponent : List Char → Option Int
  | [] => some 0
  | c :: cs =>
    if c = 'e' || c = 'E' then
      let (minus, ds) := splitSign cs
      if ds.isEmpty || !ds.all isDigit then none
      else
        let e : Int := digitsUpTo 65535 ds
        some (if minus then -e else e)
    else none

/-- The digits after a point, if there is one, and the rest. -/
def readFraction : List Char → List Char × List Char
  | '.' :: cs => (cs.takeWhile isDigit, cs.dropWhile isDigit)
  | cs => ([], cs)

/-- More digits than a number halfway between two neighbouring doubles has. -/
def significantDigits : Nat := 800

/-- The digits of a numeral as a natural number, and the number of places it has been moved to the
right. Leading zeros are dropped, and of the digits beyond the significant ones there remains a
single one that is not zero, if there was any: it keeps the number off a halfway point and on the
side of it where the digits were. -/
def significand (cs : List Char) : Nat × Nat :=
  let digits := cs.dropWhile (· = '0')
  let kept := digits.take significantDigits
  let dropped := digits.drop significantDigits
  if dropped.all (· = '0') then (digitsValue kept, dropped.length)
  else (appendDigit (digitsValue kept) '1', dropped.length - 1)

/-- An unsigned decimal numeral, rounded to the nearest number. -/
def readDecimal (negative : Bool) (cs : List Char) : Option Double :=
  let whole := cs.takeWhile isDigit
  let (fraction, rest) := readFraction (cs.dropWhile isDigit)
  if whole.isEmpty && fraction.isEmpty then none
  else (readExponent rest).map fun e =>
    let (digits, places) := significand (whole ++ fraction)
    Binary.ofDecimal negative digits (e - fraction.length + places)

/-- The number a text denotes, or `none` if it is not a numeral. -/
def read (cs : List Char) : Option Double :=
  let (negative, rest) := splitSign cs
  let word := String.ofList (rest.map lowerAscii)
  if word = "inf" || word = "infinity" then
    some (Binary.ofMagnitude _ negative Format.double.infinity)
  else if word = "nan" then some (Binary.nan _)
  else readDecimal negative rest

end Membrane.Numeral
