/-!
# Integers in words

An integer of any size is kept as its sign and the words of 32 bits that its absolute value is
written with, the lowest first. Zero is written with no word at all.

Source: specification, section 2: the big integers of "Host object model" and their narrowing.

## Main definitions

* `Numeral.words`: the words of a natural number.
* `Numeral.lowBits`: the low 32 bits of an integer, as a signed number.
-/

namespace Membrane.Numeral

/-- The words of a natural number, the lowest first. -/
def words (n : Nat) : List UInt32 :=
  if n = 0 then [] else UInt32.ofNat n :: words (n / 4294967296)
termination_by n
decreasing_by omega

/-- The low 32 bits of an integer: the lowest word of its absolute value, taken as a signed number,
which a minus sign negates within the 32 bits. -/
def lowBits (n : Int) : Int32 :=
  let low := ((words n.natAbs).head?.getD 0).toInt32
  if n < 0 then -low else low

end Membrane.Numeral
