/-!
# Blank characters

The characters that surround a numeral without being part of it: those with the property
`White_Space`.

Source: specification, section 2: the conversion of text to a number.

## Main definitions

* `Text.isBlank`: the property.
* `Text.trim`: the text between the first and the last character that is not blank.
-/

namespace Membrane.Text

/-- The code points with the property `White_Space`. -/
def isBlank (c : Char) : Bool :=
  let n := c.toNat
  (0x09 ≤ n && n ≤ 0x0D) || n = 0x20 || n = 0x85 || n = 0xA0 || n = 0x1680 ||
    (0x2000 ≤ n && n ≤ 0x200A) || n = 0x2028 || n = 0x2029 || n = 0x202F || n = 0x205F ||
    n = 0x3000

/-- The characters from the first to the last one that is not blank. -/
def trim (cs : List Char) : List Char :=
  ((cs.dropWhile isBlank).reverse.dropWhile isBlank).reverse

end Membrane.Text
