import Membrane.Text.CaseTable

/-!
# Letter case of the first letter

A property name and the name of its accessor differ in the case of one letter: `name` is read by
`getName`. Capital and small forms may be several characters, and not every letter comes back from
its small form.

Source: specification, section 4.2, getter accessor, and the prefixes of section 9.

## Main definitions

* `Text.capital`, `Text.small`: the capital and the small form of a character.
* `Text.isCapital`: the property `Uppercase`.
* `Text.capitalize?`, `Text.uncapitalize?`: names with their first letter changed.
-/

namespace Membrane.Text

/-- The image of a code point under the run it lies on. -/
def mapCase (table : List CaseRun) (n : Nat) : Option Nat := table.findSome? (·.image? n)

/-- The capital form of a character. -/
def capital (c : Char) : List Char :=
  match CaseTable.expandedCapitals.lookup c.toNat with
  | some ns => ns.map Char.ofNat
  | none => [((mapCase CaseTable.capitals c.toNat).map Char.ofNat).getD c]

/-- The small form of a character. The dotted capital `İ` alone has two characters. -/
def small (c : Char) : List Char :=
  if c = 'İ' then ['i', Char.ofNat 0x307]
  else [((mapCase CaseTable.smalls c.toNat).map Char.ofNat).getD c]

/-- A character is upper case if it has a small form and is not title case, or if it is one of the
capitals without a small form. -/
def isCapital (c : Char) : Bool :=
  let n := c.toNat
  if c = 'İ' then true
  else if CaseTable.smalls.any (·.contains n) then !CaseTable.title.any (·.contains n)
  else CaseTable.loneCapitals.any (·.contains n)

/-- A name with its first letter in capital form; the empty name has none. -/
def capitalize? : List Char → Option (List Char)
  | [] => none
  | c :: cs => some (capital c ++ cs)

/-- A name that starts with an upper-case letter, with that letter in small form. -/
def uncapitalize? : List Char → Option (List Char)
  | [] => none
  | c :: cs => if isCapital c then some (small c ++ cs) else none

end Membrane.Text
