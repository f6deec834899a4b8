/-!
# Order by UTF-16 code units

Scripts order text by its 16-bit code units, so a character beyond `U+FFFF` comes before those from
`U+E000` to `U+FFFF`: its first unit is a surrogate.

Source: specification, section 4.3: the natural order of `sort`.

## Main definitions

* `Text.units`: the code units of a text.
* `Text.unitsLE`: the lexicographic order of unit sequences, as a test.
-/

namespace Membrane.Text

/-- The code units of one character: two surrogates beyond `U+FFFF`. -/
def charUnits (c : Char) : List Nat :=
  if c.toNat < 0x10000 then [c.toNat]
  else [0xD800 + (c.toNat - 0x10000) / 0x400, 0xDC00 + (c.toNat - 0x10000) % 0x400]

/-- The code units of a text. -/
def units (s : String) : List Nat := s.toList.flatMap charUnits

/-- Whether a sequence of units comes before another or is equal to it. -/
def unitsLE : List Nat → List Nat → Bool
  | [], _ => true
  | _ :: _, [] => false
  | a :: as, b :: bs => a < b || (a = b && unitsLE as bs)

end Membrane.Text
