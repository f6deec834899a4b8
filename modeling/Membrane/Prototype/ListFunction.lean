import Membrane.Iteration
import Membrane.Prototype.Sequence
import Membrane.Prototype.Sort
import Membrane.Prototype.Walk
import Membrane.Text.CodeUnit

/-!
# List functions

The functions that scripts expect of arrays, on host lists. Each is given what runs callables, the
number of steps a walk may take, the list it is bound to, its receiver and its arguments.

Functions that take elements out of the list or overwrite them change the list first and carry the
elements to the script afterwards.

Source: specification, section 4.3, list semantics; section 5 for callbacks.

## Main definitions

* `OnList.every`, `OnList.map`, … : one definition for each function.
* `Prototype.ListFunction.run`: the function of a name.
-/

namespace Membrane

open Host (Value)

/-- The items of the target of a list function, first to last. -/
def listValues (target : Value) : Run (List Value) := do return (← listItems target).toList

/-- Replaces the items of a list. -/
def putItems (target : Value) (items : List Value) : Run Unit :=
  modify (·.putData target (.list items.toArray))

namespace OnList

section Callbacks

variable (eng : Engine) (invoke : Invoke) (steps : Nat) (target : Value)
  (this : Script.Value) (args : List Script.Value)

/-- Whether the callback holds of every element. -/
def every : Run Script.Value := do
  let walk ← Walk.ofArguments this args
  forward target
    (fun () v i => do
      if ← walk.test eng invoke v i then return Step.next () else return .done (.boolean false))
    (fun () => return .boolean true) nothing steps 0 ()

/-- Whether the callback holds of some element. -/
def someOf : Run Script.Value := do
  let walk ← Walk.ofArguments this args
  forward target
    (fun () v i => do
      if ← walk.test eng invoke v i then return Step.done (.boolean true) else return .next ())
    (fun () => return .boolean false) nothing steps 0 ()

/-- The elements of which the callback holds. -/
def filter : Run Script.Value := Run.scope do
  let walk ← Walk.ofArguments this args
  forward target
    (fun (kept : List Value) v i => do
      if ← walk.test eng invoke v i then
        Run.holdHost v
        return Step.next (v :: kept)
      else return .next kept)
    (fun kept => eng.toScriptArray kept.reverse) nothing steps 0 []

/-- The first element of which the callback holds. -/
def find : Run Script.Value := do
  let walk ← Walk.ofArguments this args
  forward target
    (fun () v i => do
      if ← walk.test eng invoke v i then return Step.done (← eng.toScript v) else return .next ())
    (fun () => return .undefined) nothing steps 0 ()

/-- The first index at which the callback holds. -/
def findIndex : Run Script.Value := do
  let walk ← Walk.ofArguments this args
  forward target
    (fun () v i => do
      if ← walk.test eng invoke v i then return Step.done (.ofIndex i) else return .next ())
    (fun () => return .integer (-1)) nothing steps 0 ()

/-- The last element of which the callback holds, of those that were there at the start. -/
def findLast : Run Script.Value := do
  let walk ← Walk.ofArguments this args
  let length := (← listItems target).size
  let found ← backward target
    (fun v i => do
      if ← walk.test eng invoke v i then return some (← eng.toScript v) else return none)
    length
  return found.getD .undefined

/-- The last index at which the callback holds, of those that were there at the start. -/
def findLastIndex : Run Script.Value := do
  let walk ← Walk.ofArguments this args
  let length := (← listItems target).size
  let found ← backward target
    (fun v i => do
      if ← walk.test eng invoke v i then return some (.ofIndex i) else return none)
    length
  return found.getD (.integer (-1))

/-- Calls the callback on every element. -/
def forEach : Run Script.Value := do
  let walk ← Walk.ofArguments this args
  forward target
    (fun () v i => do
      Run.release (← walk.call eng invoke v i)
      return Step.next ())
    (fun () => return .undefined) nothing steps 0 ()

/-- What the callback returns for the elements. The results are released if a later call fails, and
otherwise belong to the array. -/
def map : Run Script.Value := Run.scope do
  let walk ← Walk.ofArguments this args
  forward target
    (fun (results : List Script.Value) v i => do
      let result ← walk.call eng invoke v i
      Run.holdScript result
      return Step.next (result :: results))
    (fun results => Run.newScriptArray results.reverse)
    (fun results => Run.releaseAll results.reverse) steps 0 []

/-- Folds the element at an index into an accumulator, if there is one. -/
def foldStep (callback : Script.Value) (i : Nat) (acc : Script.Value) :
    Run (Option Script.Value) := do
  match ← elementAt target i with
  | none => return none
  | some v =>
    let current ← eng.toScript v
    return some (← Run.call invoke callback .undefined [acc, current, .ofIndex i, this])

/-- Folds the elements at some indices into an accumulator. Each accumulator is released when the
next one takes its place, or when the fold fails; the last one is the result. -/
def foldIndices (callback : Script.Value) : List Nat → Script.Value → Run Script.Value
  | [], acc => return acc
  | i :: rest, acc => do
    match ← (foldStep eng invoke target this callback i acc).onHalt (Run.release acc) with
    | none => foldIndices callback rest acc
    | some next =>
      Run.release acc
      foldIndices callback rest next

/-- Folds the elements at the given indices, starting with the second argument or, without one, with
the first of the elements. -/
def fold (order : Nat → List Nat) : Run Script.Value := do
  let callback ← Arguments.callback args 0
  let length := (← listItems target).size
  match args[1]? with
  | some initial => foldIndices eng invoke target this callback (order length) initial
  | none =>
    match order length with
    | [] => Run.raise .emptyReduce
    | i :: rest =>
      match ← elementAt target i with
      | none => Run.raise .emptyReduce
      | some v =>
        let first ← eng.toScript v
        if length = 1 then return first
        else foldIndices eng invoke target this callback rest first

/-- Folds the elements from the first to the last. -/
def reduce : Run Script.Value := fold eng invoke target this args List.range

/-- Folds the elements from the last to the first. -/
def reduceRight : Run Script.Value :=
  fold eng invoke target this args fun length => (List.range length).reverse

end Callbacks

section Order

variable (eng : Engine) (invoke : Invoke)

/-- What a comparator returns for two elements. It is released. -/
def consult (comparator : Script.Value) (left right : Value) : Run Script.Value := do
  let left ← eng.toScript left
  let right ← eng.toScript right
  let result ← Run.call invoke comparator .undefined [left, right]
  Run.release result
  return result

/-- How a comparator orders two elements: by the sign of what it returns, narrowed to 32 bits. -/
def comparison (comparator : Script.Value) (left right : Value) : Run Ordering := do
  let result ← consult eng invoke comparator left right
  return compare result.toInt32.toInt 0

/-- Turns a fault into a failed comparison with the same message. -/
def asComparison {α : Type} (x : Run α) : Run α := fun w =>
  match x w with
  | .error (.fault f) w' => .error (.fault (.failedComparison f.message)) w'
  | r => r

/-- The items in the order of their string forms. -/
def naturalOrder (items : List Value) : Run (List Value) := do
  let keyed ← items.mapM fun v => do return (Text.units (← Run.hostText v), v)
  return (keyed.mergeSort fun a b => Text.unitsLE a.1 b.1).map Prod.snd

/-- The items in the order of a comparator, or of their string forms if the argument is not
callable. All of them are held while they are compared. -/
def sorted (items : List Value) (comparator : Option Script.Value) : Run (List Value) :=
  match comparator.filter Script.Value.isFunction with
  | none => naturalOrder items
  | some c => Run.scope do
    Run.hold (items.filterMap Value.node?)
    asComparison (mergeSortBy (comparison eng invoke c) items)

end Order

section Plain

variable (eng : Engine) (target : Value) (this : Script.Value) (args : List Script.Value)

/-- The element at an index, counted from either end. -/
def item : Run Script.Value := do
  let items ← listItems target
  match (Sequence.itemIndex? (Arguments.int args 0 0) items.size).bind (items[·]?) with
  | some v => eng.toScript v
  | none => return .undefined

/-- What an argument contributes to a concatenation: the items of an array, a list or a set, or
itself. -/
def concatPart (arg : Script.Value) : Run (List Script.Value) := do
  match arg with
  | .array r => return ((← get).arrays.get? r).getD []
  | arg =>
    let v ← eng.toHost arg
    match (← get).data? v with
    | some (.list items) => eng.toScriptAll items.toList
    | some (.set members) => eng.toScriptAll members
    | _ => return [arg]

/-- The elements followed by what the arguments contribute. -/
def concat : Run Script.Value := do
  let own ← eng.toScriptAll (← listValues target)
  let parts ← args.mapM (concatPart eng)
  Run.newScriptArray (own ++ parts.flatten)

/-- Copies elements within the list. -/
def copyWithin : Run Script.Value := do
  putItems target (Sequence.copyWithin (← listValues target) args)
  return this

/-- Overwrites elements with a value. -/
def fill : Run Script.Value := do
  let items ← listValues target
  if !items.isEmpty && !args.isEmpty then
    let v ← eng.toHost (Arguments.get args 0)
    putItems target (Sequence.fill items v args)
  return this

/-- The index a search finds, or `none` without a value to search for. -/
def search (find : List Value → Value → List Script.Value → Option Nat) : Run (Option Nat) := do
  match args[0]? with
  | none => return none
  | some v =>
    let v ← eng.toHost v
    return find (← listValues target) v args

/-- Whether a value is found. -/
def includes : Run Script.Value := do
  return .boolean (← search eng target args Sequence.searchForward).isSome

/-- The script form of a search result. -/
def ofSearch (found : Option Nat) : Script.Value := (found.map .ofIndex).getD (.integer (-1))

/-- The first index at which a value is found. -/
def indexOf : Run Script.Value := do
  return ofSearch (← search eng target args Sequence.searchForward)

/-- The last index at which a value is found. -/
def lastIndexOf : Run Script.Value := do
  return ofSearch (← search eng target args Sequence.searchBackward)

/-- The string forms of the elements between separators. Null has none. -/
def join : Run Script.Value := do
  let separator ← Arguments.text args 0 ","
  let items ← listValues target
  let texts ← items.mapM fun v => if v.isNull then return "" else Run.hostText v
  return .string (joinTexts separator texts)

/-- Takes out the last element. -/
def pop : Run Script.Value := do
  let last := (← listItems target).back?
  modify (·.changeItems target Array.pop)
  match last with
  | some v => eng.toScript v
  | none => return .undefined

/-- Adds the arguments at the end. -/
def push : Run Script.Value := do
  let added ← eng.toHostAll args
  let length := (← listItems target).size
  modify (·.changeItems target (· ++ added))
  return .ofIndex (length + added.length)

/-- Reverses the elements. -/
def reverse : Run Script.Value := do
  putItems target (← listValues target).reverse
  return this

/-- Takes out the first element. -/
def shift : Run Script.Value := do
  let first := (← listItems target)[0]?
  modify (·.changeItems target (·.eraseIdxIfInBounds 0))
  match first with
  | some v => eng.toScript v
  | none => return .undefined

/-- The elements of a range. -/
def slice : Run Script.Value := do eng.toScriptArray (Sequence.slice (← listValues target) args)

/-- Replaces a part of the list; the removed elements are the result. -/
def splice : Run Script.Value := do
  let inserted ← eng.toHostAll (args.drop 2)
  let items ← listValues target
  match Sequence.splice? items args inserted with
  | .error f => Run.raise f
  | .ok (removed, left) =>
    putItems target left
    eng.toScriptArray removed

/-- The elements. -/
def toJSON : Run Script.Value := do eng.toScriptArray (← listValues target)

/-- The elements in reverse. -/
def toReversed : Run Script.Value := do eng.toScriptArray (← listValues target).reverse

/-- The elements as a splice would leave them. -/
def toSpliced : Run Script.Value := do
  let inserted ← eng.toHostAll (args.drop 2)
  let items ← listValues target
  match Sequence.splice? items args inserted with
  | .error f => Run.raise f
  | .ok (_, left) => eng.toScriptArray left

/-- Adds the arguments at the front. -/
def unshift : Run Script.Value := do
  let added ← eng.toHostAll args
  let length := (← listItems target).size
  modify (·.changeItems target (added.toArray ++ ·))
  return .ofIndex (added.length + length)

/-- The elements with one of them replaced by an argument as it is. -/
def withItem : Run Script.Value := do
  let items ← listValues target
  let requested := Arguments.int args 0 0
  match Sequence.itemIndex? requested items.length with
  | none => Run.raise (.invalidIndex requested.toInt)
  | some i =>
    let values ← eng.toScriptAll items
    Run.newScriptArray (values.set i (Arguments.get args 1))

/-- The number of elements. -/
def length : Run Script.Value := do return .ofIndex (← listItems target).size

end Plain

section Sorting

variable (eng : Engine) (invoke : Invoke) (target : Value) (this : Script.Value)
  (args : List Script.Value)

/-- Sorts the list. -/
def sort : Run Script.Value := do
  let items ← listValues target
  if 1 < items.length then
    putItems target (← sorted eng invoke items args[0]?)
  return this

/-- The elements as sorting would leave them. -/
def toSorted : Run Script.Value := do
  let items ← listValues target
  eng.toScriptArray (← sorted eng invoke items args[0]?)

end Sorting

end OnList

/-- The list function of a name, on the list it is bound to. -/
def Prototype.ListFunction.run (f : ListFunction) (eng : Engine) (invoke : Invoke) (steps : Nat)
    (target : Value) (this : Script.Value) (args : List Script.Value) : Run Script.Value :=
  match f with
  | .item => OnList.item eng target args
  | .concat => OnList.concat eng target args
  | .copyWithin => OnList.copyWithin target this args
  | .entries => Run.newIterator target .entries
  | .every => OnList.every eng invoke steps target this args
  | .fill => OnList.fill eng target this args
  | .filter => OnList.filter eng invoke steps target this args
  | .find => OnList.find eng invoke steps target this args
  | .findIndex => OnList.findIndex eng invoke steps target this args
  | .findLast => OnList.findLast eng invoke target this args
  | .findLastIndex => OnList.findLastIndex eng invoke target this args
  | .forEach => OnList.forEach eng invoke steps target this args
  | .includes => OnList.includes eng target args
  | .indexOf => OnList.indexOf eng target args
  | .join => OnList.join target args
  | .keys => Run.newIterator target .keys
  | .lastIndexOf => OnList.lastIndexOf eng target args
  | .length | .size => OnList.length target
  | .map => OnList.map eng invoke steps target this args
  | .pop => OnList.pop eng target
  | .push => OnList.push eng target args
  | .reduce => OnList.reduce eng invoke target this args
  | .reduceRight => OnList.reduceRight eng invoke target this args
  | .reverse => OnList.reverse target this
  | .shift => OnList.shift eng target
  | .slice => OnList.slice eng target args
  | .someOf => OnList.someOf eng invoke steps target this args
  | .sort => OnList.sort eng invoke target this args
  | .splice => OnList.splice eng target args
  | .toJSON => OnList.toJSON eng target
  | .toReversed => OnList.toReversed eng target
  | .toSorted => OnList.toSorted eng invoke target args
  | .toSpliced => OnList.toSpliced eng target args
  | .unshift => OnList.unshift eng target args
  | .values => Run.newIterator target .values
  | .withItem => OnList.withItem eng target args

end Membrane
