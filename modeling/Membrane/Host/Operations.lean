import Membrane.Host.Storage

/-!
# Operations of the built-in classes

What the methods of `Object`, `Class`, `List`, `Set` and `Map` do. Each checks its receiver, missing
arguments are null, and an index is any integral number within the list. An operation that writes
locks the list before it looks at the index, so the fault for an index whose text has that list in
it is never raised: writing the text waits for the lock.

Source: specification, section 2, "Host object model": the methods of the built-in classes; section
5 for the locks.

## Main definitions

* `Host.BuiltIn.run`: the operation on a receiver and arguments.
-/

namespace Membrane.Host

open Membrane.Run

/-- An argument, or null if it is missing. -/
def argument (args : List Value) (i : Nat) : Value := args[i]?.getD .null

/-- The number of elements as a host value. -/
def ofSize (n : Nat) : Value := .integer (Script.Value.clampInt32 n)

/-- The fault of an operation whose receiver has another shape. -/
def wrongReceiver {α : Type} (receiver : Value) (expected : String) : Run α :=
  raiseAbout receiver fun s => .wrongReceiver s expected

/-- The items of a receiver that must be a list. -/
def listOf (receiver : Value) : Run (Array Value) := do
  match (← get).list? receiver with
  | some items => return items
  | none => wrongReceiver receiver "List"

/-- The members of a receiver that must be a set. -/
def setOf (receiver : Value) : Run (List Value) := do
  match (← get).set? receiver with
  | some members => return members
  | none => wrongReceiver receiver "Set"

/-- The entries of a receiver that must be a map. -/
def mapOf (receiver : Value) : Run (Dictionary Value Value) := do
  match (← get).map? receiver with
  | some entries => return entries
  | none => wrongReceiver receiver "Map"

/-- An index below a length, while some collections are locked. The fault quotes the index. -/
def indexBelow (v : Value) (length : Nat) (locked : List (Ref .object) := []) : Run Nat :=
  match v.toIndex?.filter (· < length) with
  | some i => return i
  | none => raiseAbout v (fun s => .indexOutOfBounds s length) locked

/-- An index below a length, of a receiver that is locked because it is about to be written to. -/
def indexToWrite (receiver v : Value) (length : Nat) : Run Nat :=
  indexBelow v length receiver.object?.toList

namespace BuiltIn

/-- The operation on a receiver and arguments, given what makes hashes. -/
def run (b : BuiltIn) (hasher : Hasher) (receiver : Value) (args : List Value) : Run Value :=
  match b with
  | .text => do return .string (← hostText receiver)
  | .hashCode => return .integer (receiver.hashCode hasher)
  | .equals => return .boolean (args.head?.any (· == receiver))
  | .className => do
    match (← get).classRef? receiver with
    | some c => return .string c.name
    | none => wrongReceiver receiver "Class"
  | .listAdd => do
    let _ ← listOf receiver
    modify (·.changeItems receiver (·.push (argument args 0)))
    return .boolean true
  | .listInsert => do
    let items ← listOf receiver
    let i ← indexToWrite receiver (argument args 0) (items.size + 1)
    modify (·.changeItems receiver (·.insertIdxIfInBounds i (argument args 1)))
    return .null
  | .listGet => do
    let items ← listOf receiver
    let i ← indexBelow (argument args 0) items.size
    return items[i]?.getD .null
  | .listSet => do
    let items ← listOf receiver
    let i ← indexToWrite receiver (argument args 0) items.size
    let old := items[i]?.getD .null
    modify (·.changeItems receiver (·.setIfInBounds i (argument args 1)))
    return old
  | .listRemove => do
    let items ← listOf receiver
    let i ← indexToWrite receiver (argument args 0) items.size
    let old := items[i]?.getD .null
    modify (·.changeItems receiver (·.eraseIdxIfInBounds i))
    return old
  | .listSize => do return ofSize (← listOf receiver).size
  | .listIsEmpty => do return .boolean (← listOf receiver).isEmpty
  | .listClear => do
    let _ ← listOf receiver
    modify (·.changeItems receiver fun _ => #[])
    return .null
  | .listContains => do return .boolean ((← listOf receiver).any (· == argument args 0))
  | .listIndexOf => do
    match (← listOf receiver).findIdx? (· == argument args 0) with
    | some i => return ofSize i
    | none => return .integer (-1)
  | .setAdd => do
    let present := Members.contains (← setOf receiver) (argument args 0)
    modify (·.changeMembers receiver (Members.insert · (argument args 0)))
    return .boolean !present
  | .setRemove => do
    let present := Members.contains (← setOf receiver) (argument args 0)
    modify (·.changeMembers receiver (Members.erase · (argument args 0)))
    return .boolean present
  | .setContains => do return .boolean (Members.contains (← setOf receiver) (argument args 0))
  | .setSize => do return ofSize (← setOf receiver).length
  | .setIsEmpty => do return .boolean (← setOf receiver).isEmpty
  | .setClear => do
    let _ ← setOf receiver
    modify (·.changeMembers receiver fun _ => [])
    return .null
  | .mapGet => do return ((← mapOf receiver).get? (argument args 0)).getD .null
  | .mapPut => do
    let old := (← mapOf receiver).get? (argument args 0)
    modify (·.changeEntries receiver (·.put (argument args 0) (argument args 1)))
    return old.getD .null
  | .mapRemove => do
    let old := (← mapOf receiver).get? (argument args 0)
    modify (·.changeEntries receiver (·.erase (argument args 0)))
    return old.getD .null
  | .mapContainsKey => do return .boolean ((← mapOf receiver).contains (argument args 0))
  | .mapSize => do return ofSize (← mapOf receiver).length
  | .mapIsEmpty => do return .boolean (← mapOf receiver).isEmpty
  | .mapClear => do
    let _ ← mapOf receiver
    modify (·.changeEntries receiver fun _ => [])
    return .null

end BuiltIn

end Membrane.Host
