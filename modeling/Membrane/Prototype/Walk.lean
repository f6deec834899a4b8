import Membrane.Arguments

/-!
# Walks with a callback

A walk hands the elements of a list to a callback one by one and reads the list anew at each step,
so the callback may change the list it is walked over: elements it appends are visited as well. What
the callback returns is released as soon as it has been used.

A forward walk ends when an index holds no element. Nothing bounds it, so it is given a number of
steps after which it is cut off. A walk that ends without a result gives up what it holds then.

Source: specification, section 4.3, list semantics, and section 5: elements are read anew at each
step.

## Main definitions

* `listItems`: the items of a target that must be a list.
* `Walk`: a callback with its receiver and the value that stands for the list.
* `Walk.call`, `Walk.test`: one call of the callback.
* `forward`, `backward`: the loops.
-/

namespace Membrane

/-- The items of the target of a list function. -/
def listItems (target : Host.Value) : Run (Array Host.Value) := do
  match (← get).list? target with
  | some items => return items
  | none => Run.raiseAbout target fun s => .wrongTarget s "List"

/-- The element of a list at an index, if there is one. -/
def elementAt (target : Host.Value) (i : Nat) : Run (Option Host.Value) :=
  return (← listItems target)[i]?

/-- A callback with its receiver, and the receiver of the list function, which stands for the
list. -/
structure Walk where
  /-- The callback. -/
  callback : Script.Value
  /-- The receiver of the callback. -/
  receiver : Script.Value
  /-- The last argument of every call. -/
  this : Script.Value

namespace Walk

/-- The walk that the arguments of a list function ask for. -/
def ofArguments (this : Script.Value) (args : List Script.Value) : Run Walk := do
  let callback ← Arguments.callback args 0
  return ⟨callback, Arguments.receiver args 1, this⟩

variable (eng : Engine) (invoke : Invoke) (walk : Walk)

/-- Calls the callback on an element, its index and the list. -/
def call (element : Host.Value) (i : Nat) : Run Script.Value := do
  let element ← eng.toScript element
  Run.call invoke walk.callback walk.receiver [element, .ofIndex i, walk.this]

/-- Calls the callback as a condition. -/
def test (element : Host.Value) (i : Nat) : Run Bool := do
  let result ← walk.call eng invoke element i
  Run.release result
  return result.truthy

end Walk

/-- What a step of a loop decides: to go on with a new state, or to end with a result. -/
inductive Step (σ β : Type) where
  | next (s : σ)
  | done (b : β)

/-- Visits the elements from an index on until a step is done or the list has no more elements;
`finish` gives the result in that case. A walk that fails at some state gives it up. -/
def forward {σ β : Type} (target : Host.Value) (step : σ → Host.Value → Nat → Run (Step σ β))
    (finish : σ → Run β) (giveUp : σ → Run Unit) : Nat → Nat → σ → Run β
  | 0, _, _ => throw .exhausted
  | n + 1, i, s => do
    match ← (elementAt target i).onHalt (giveUp s) with
    | none => finish s
    | some v =>
      match ← (step s v i).onHalt (giveUp s) with
      | .next s' => forward target step finish giveUp n (i + 1) s'
      | .done b => return b

/-- What a walk does that fails while it holds nothing. -/
def nothing {σ : Type} : σ → Run Unit := fun _ => return ()

/-- Visits the elements before an index from the last to the first until a step gives a result.
Indices that hold no element any more are passed over. -/
def backward {β : Type} (target : Host.Value) (step : Host.Value → Nat → Run (Option β)) :
    Nat → Run (Option β)
  | 0 => return none
  | i + 1 => do
    match ← elementAt target i with
    | none => backward target step i
    | some v =>
      match ← step v i with
      | some b => return some b
      | none => backward target step i

end Membrane
