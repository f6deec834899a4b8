import Membrane.Binary.Rounding
import Membrane.Binary.Shortest

/-!
# Decimal text of numbers

Two layouts of the same digits. On the host side a floating-point number is its shortest decimal,
always positional, and keeps the sign of zero. On the script side integral numbers below `10 ^ 21`
are written out exactly, zero has no sign and the infinities are spelled in full.

Source: specification, section 2: the string conversion of numbers.

## Main definitions

* `Layout`, `Layout.host`, `Layout.script`: what the two sides decide differently.
* `Layout.write`: the text of a number.
-/

namespace Membrane

namespace Decimal

/-- Digits with a point and with zeros wherever the point lies outside them; never an exponent. -/
def positional (d : Decimal) : String :=
  let size : Int := d.digits.length
  if d.point ≤ 0 then
    String.ofList ('0' :: '.' :: (List.replicate (-d.point).toNat '0' ++ d.digits))
  else if size ≤ d.point then
    String.ofList (d.digits ++ List.replicate (d.point - size).toNat '0')
  else
    String.ofList (d.digits.take d.point.toNat ++ '.' :: d.digits.drop d.point.toNat)

end Decimal

/-- The choices a side makes in writing floating-point numbers. -/
structure Layout where
  /-- The text of infinity, before its sign. -/
  infinity : String
  /-- Whether a negative zero keeps its sign. -/
  signedZero : Bool
  /-- Integral numbers below this power of ten are written exactly and not by shortest digits. -/
  exactBelow : Option Nat

namespace Layout

/-- The layout of host numbers. -/
def host : Layout := ⟨"inf", true, none⟩

/-- The layout of script numbers. -/
def script : Layout := ⟨"Infinity", false, some 21⟩

/-- The text of a finite number without its sign. -/
def magnitudeText (l : Layout) {f : Format} (x : Binary f) : String :=
  let whole := x.truncate.natAbs
  if x.isZero then "0"
  else if x.isIntegral && l.exactBelow.any (fun n => whole < tenPow n) then toString whole
  else x.shortest.positional

/-- The text of a number. -/
def write (l : Layout) {f : Format} (x : Binary f) : String :=
  if x.isNaN then "NaN"
  else
    let sign := if x.negative && (l.signedZero || !x.isZero) then "-" else ""
    if x.isInfinite then sign ++ l.infinity else sign ++ l.magnitudeText x

end Layout

end Membrane
