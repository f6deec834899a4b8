import Membrane.Engine

/-!
# Arguments of calls

How functions read their arguments: a missing argument is undefined, an undefined number takes its
default, a callback must be callable, and only a value with an identity serves as the receiver of a
callback. Positions count from the end when they are negative.

Source: specification, section 2, "Conversion helpers", and the index normalization of section 4.3.

## Main definitions

* `Arguments.get`, `Arguments.int`, `Arguments.text`, `Arguments.callback`, `Arguments.receiver`.
* `resolveIndex`: a position brought into a list of a given length.
-/

namespace Membrane

namespace Arguments

/-- An argument, or undefined if it is missing. -/
def get (args : List Script.Value) (i : Nat) : Script.Value := args[i]?.getD .undefined

/-- An argument narrowed to 32 bits; the default if it is missing or undefined. -/
def int (args : List Script.Value) (i : Nat) (default : Int32) : Int32 :=
  match args[i]? with
  | none | some .undefined => default
  | some v => v.toInt32

/-- The string form of an argument; the default if it is missing or undefined. -/
def text (args : List Script.Value) (i : Nat) (default : String) : Run String :=
  match args[i]? with
  | none | some .undefined => return default
  | some v => Run.scriptText v

/-- An argument that must be callable. -/
def callback (args : List Script.Value) (i : Nat) : Run Script.Value :=
  let v := get args i
  if v.isFunction then return v else Run.raiseAbout (.script v) .notFunction

/-- An argument that serves as the receiver of callbacks: an object, or else undefined. -/
def receiver (args : List Script.Value) (i : Nat) : Script.Value :=
  let v := get args i
  if v.isObject then v else .undefined

end Arguments

/-- A length as a 32-bit integer. -/
def lengthInt32 (length : Nat) : Int32 := Script.Value.clampInt32 length

/-- A position in a list of a given length: a negative one counts from the end, and the result lies
between zero and the length. -/
def resolveIndex (i : Int32) (length : Nat) : Nat :=
  if i.toInt < 0 then (i.toInt + length).toNat else min i.toInt.toNat length

end Membrane
