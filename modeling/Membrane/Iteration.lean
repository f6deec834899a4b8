import Membrane.Arguments

/-!
# Iteration

An iterator gives, one after the other, the items its target held when the iterator was made, and
then for ever reports that it is done. Its state is one cell: every step takes the first of the
items left.

Source: specification, section 4.4.

## Main definitions

* `World.isIterable`, `World.defaultKind`: what can be iterated, and how unless told otherwise.
* `World.iteratorItems`: the items of a target.
* `Run.newIterator`: an iterator over them.
* `Engine.advance`: one step.
* `Run.toPrimitive`: the primitive value of a target.
-/

namespace Membrane

/-- An index as a host value. -/
def indexKey (i : Nat) : Host.Value := .integer (Script.Value.clampInt32 i)

/-- The items of a sequence. -/
def sequenceItems (kind : IterationKind) (items : List Host.Value) : List IteratorItem :=
  match kind with
  | .keys => (List.range items.length).map fun i => .value (indexKey i)
  | .values => items.map .value
  | .entries => items.zipIdx.map fun (v, i) => .pair (indexKey i) v

/-- The items of a set. -/
def memberItems (kind : IterationKind) (members : List Host.Value) : List IteratorItem :=
  match kind with
  | .keys | .values => members.map .value
  | .entries => members.map fun v => .pair v v

/-- The items of a map. -/
def entryItems (kind : IterationKind) (entries : Dictionary Host.Value Host.Value) :
    List IteratorItem :=
  match kind with
  | .keys => entries.keys.map .value
  | .values => entries.values.map .value
  | .entries => entries.map fun (k, v) => .pair k v

namespace World

/-- Lists, sets, maps and arrays can be iterated. -/
def isIterable (w : World) (target : Host.Value) : Bool :=
  match w.data? target with
  | some (.list _) | some (.set _) | some (.map _) | some (.array _) => true
  | _ => false

/-- Maps are iterated by entries, all else by values. -/
def defaultKind (w : World) (target : Host.Value) : IterationKind :=
  match w.data? target with
  | some (.map _) => .entries
  | _ => .values

/-- The items a target holds. -/
def iteratorItems (w : World) (target : Host.Value) (kind : IterationKind) : List IteratorItem :=
  match w.data? target with
  | some (.list items) | some (.array items) => sequenceItems kind items.toList
  | some (.set members) => memberItems kind members
  | some (.map entries) => entryItems kind entries
  | _ => []

end World

namespace Run

/-- Makes an iterator over the items a target holds now. -/
def newIterator (target : Host.Value) (kind : IterationKind) : Run Script.Value := do
  let w ← get
  let state := w.iterators.next
  set { w with iterators := w.iterators.alloc (w.iteratorItems target kind) }
  let next ← newFunction (.next state)
  let itself ← newFunction .itself
  newRecord [(.string "next", next), (.symbol .iterator, itself)]

/-- Takes the first item an iterator has left. -/
def takeItem (state : Ref .iterator) : Run (Option IteratorItem) := do
  let w ← get
  match (w.iterators.get? state).getD [] with
  | [] => return none
  | item :: rest =>
    set { w with iterators := w.iterators.modify state fun _ => rest }
    return some item

/-- The primitive value of a wrapper, and the string form of anything else. -/
def toPrimitive (target : Host.Value) : Run Script.Value :=
  match target.scriptPrimitive? with
  | some v => return v
  | none => do return .string (← hostText target)

end Run

namespace Engine

variable (eng : Engine)

/-- Carries an item to the script. -/
def itemToScript (item : IteratorItem) : Run Script.Value :=
  match item with
  | .value v => eng.toScript v
  | .pair k v => do
    let k ← eng.toScript k
    let v ← eng.toScript v
    Run.newScriptArray [k, v]

/-- One step of an iterator. The item is used up even if it cannot be carried to the script. -/
def advance (state : Ref .iterator) : Run Script.Value := do
  let (value, done) ← match ← Run.takeItem state with
    | none => pure (Script.Value.undefined, true)
    | some item => do pure (← eng.itemToScript item, false)
  Run.newRecord [(.string "value", value), (.string "done", .boolean done)]

end Engine

end Membrane
