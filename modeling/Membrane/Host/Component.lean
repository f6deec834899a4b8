import Membrane.Host.Value

/-!
# Component types of arrays

An array holds values of its component type only. A value offered to it is converted if that loses
nothing in kind: integral numbers fit exactly or are refused, one-character text is a character, and
any number becomes a floating-point number by rounding.

Source: specification, section 2, "Host object model": the component types.

## Main definitions

* `Host.Component`.
* `Host.Component.zero`: the content of a fresh slot.
* `Host.Component.coerce?`: the value as the component type holds it.
-/

namespace Membrane.Host

/-- The component types of arrays. -/
inductive Component where
  | boolean
  | byte
  | char
  | short
  | int
  | long
  | float
  | double
  | object
  deriving DecidableEq

namespace Component

/-- All component types. -/
def all : List Component := [boolean, byte, char, short, int, long, float, double, object]

/-- The name of a component type. -/
def name : Component → String
  | boolean => "boolean"
  | byte => "byte"
  | char => "char"
  | short => "short"
  | int => "int"
  | long => "long"
  | float => "float"
  | double => "double"
  | object => "Object"

/-- Primitive components cannot hold null. -/
def isPrimitive : Component → Bool
  | object => false
  | _ => true

/-- The content of a fresh slot. -/
def zero : Component → Value
  | boolean => .boolean false
  | byte => .byte 0
  | char => .character (Char.ofNat 0)
  | short => .short 0
  | int => .integer 0
  | long => .long 0
  | float => .float (Binary.zero _)
  | double => .double (Binary.zero _)
  | object => .null

/-- An integer that lies between `-2 ^ bits` and `2 ^ bits - 1`. -/
def fits (bits : Nat) (n : Int64) : Option Int :=
  if -(twoPow bits : Nat) ≤ n.toInt ∧ n.toInt < (twoPow bits : Nat) then some n.toInt else none

/-- The character of a one-character text. -/
def singleCharacter? (s : String) : Option Char :=
  match s.toList with
  | [c] => some c
  | _ => none

/-- The value as an array of the component type holds it, or `none` if it cannot. -/
def coerce? (c : Component) (v : Value) : Option Value :=
  match c with
  | .object => some v
  | .boolean =>
    match v with
    | .boolean b => some (.boolean b)
    | _ => none
  | .char =>
    match v with
    | .character x => some (.character x)
    | .string s => (singleCharacter? s).map Value.character
    | _ => none
  | .byte => (v.toInt64?.bind (fits 7)).map fun n => .byte (Int8.ofInt n)
  | .short => (v.toInt64?.bind (fits 15)).map fun n => .short (Int16.ofInt n)
  | .int => (v.toInt64?.bind (fits 31)).map fun n => .integer (Int32.ofInt n)
  | .long => v.toInt64?.map Value.long
  | .float => v.toDouble?.map fun x => .float (x.convert _)
  | .double => v.toDouble?.map Value.double

end Component

end Membrane.Host
