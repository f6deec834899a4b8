import Membrane.Iteration

/-!
# Set functions

The functions that scripts expect of sets, on host sets. Values are compared as the host compares
them, and the order is that of insertion.

Source: specification, section 4.3, the functions of sets.

## Main definitions

* `setMembers`: the members of a target that must be a set.
* `OnSet.add`, `OnSet.forEach`, … : one definition for each function.
* `Prototype.SetFunction.run`: the function of a name.
-/

namespace Membrane

open Host (Value)

/-- The members of the target of a set function. -/
def setMembers (target : Value) : Run (List Value) := do
  match (← get).set? target with
  | some members => return members
  | none => Run.raiseAbout target fun s => .wrongTarget s "Set"

namespace OnSet

variable (eng : Engine) (invoke : Invoke) (target : Value) (this : Script.Value)
  (args : List Script.Value)

/-- Adds a value unless it is a member. -/
def add : Run Script.Value := do
  let v ← eng.toHost (Arguments.get args 0)
  let _ ← setMembers target
  modify (·.changeMembers target (Members.insert · v))
  return this

/-- Removes all members. -/
def clear : Run Script.Value := do
  let _ ← setMembers target
  modify (·.changeMembers target fun _ => [])
  return .undefined

/-- Removes a value; the result tells whether it was a member. -/
def delete : Run Script.Value := do
  let v ← eng.toHost (Arguments.get args 0)
  let present := Members.contains (← setMembers target) v
  modify (·.changeMembers target (Members.erase · v))
  return .boolean present

/-- Whether a value is a member. -/
def has : Run Script.Value := do
  let v ← eng.toHost (Arguments.get args 0)
  return .boolean (Members.contains (← setMembers target) v)

/-- Calls a callback on each of some values, twice as argument, and releases what it returns. -/
def visit (callback receiver : Script.Value) : List Value → Run Unit
  | [] => return ()
  | v :: rest => do
    let v ← eng.toScript v
    Run.release (← Run.call invoke callback receiver [v, v, this])
    visit callback receiver rest

/-- Calls a callback on each of the values that are members at the start. All of them are held until
the last call ends. -/
def forEach : Run Script.Value := Run.scope do
  let callback ← Arguments.callback args 0
  let members ← setMembers target
  Run.hold (members.filterMap Value.node?)
  visit eng invoke this callback (Arguments.receiver args 1) members
  return .undefined

/-- The number of members. -/
def size : Run Script.Value := do return .ofIndex (← setMembers target).length

end OnSet

/-- The set function of a name, on the set it is bound to. -/
def Prototype.SetFunction.run (f : SetFunction) (eng : Engine) (invoke : Invoke) (target : Value)
    (this : Script.Value) (args : List Script.Value) : Run Script.Value :=
  match f with
  | .add => OnSet.add eng target this args
  | .clear => OnSet.clear target
  | .delete => OnSet.delete eng target args
  | .entries => Run.newIterator target .entries
  | .forEach => OnSet.forEach eng invoke target this args
  | .has => OnSet.has eng target args
  | .keys | .values => Run.newIterator target .values
  | .size => OnSet.size target
  | .toJSON => Run.newRecord []
  | .toString => return .string "[object Set]"

end Membrane
