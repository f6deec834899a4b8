import Membrane.Script.Value

/-!
# Property names and index keys

Strings and numbers name properties, by their string form. A name that consists of ASCII digits
alone and denotes at most `2 ^ 31 - 1` is also an index, however many zeros lead it.

Source: specification, section 4.2: digit-only string keys.

## Main definitions

* `Script.Value.propertyName?`: the name a property value stands for.
* `indexKey?`: the index a name stands for.
-/

namespace Membrane

/-- The name a property value stands for. Symbols and all other values have none. -/
def Script.Value.propertyName? : Script.Value → Option String
  | .string s => some s
  | .integer n => (Script.Value.integer n).primitiveText?
  | .long n => (Script.Value.long n).primitiveText?
  | .double x => (Script.Value.double x).primitiveText?
  | _ => none

/-- The index a name stands for. -/
def indexKey? (name : String) : Option Nat :=
  let digits := name.toList
  if digits.isEmpty || !digits.all Numeral.isDigit then none
  else
    let n := Numeral.digitsUpTo 2147483647 digits
    if n ≤ 2147483647 then some n else none

end Membrane
