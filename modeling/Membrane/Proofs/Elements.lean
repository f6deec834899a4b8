import Membrane.Proofs.Deeds
import Membrane.Proofs.Storage
import Membrane.Proxy.Handler

/-!
# Writing and deleting elements

What the storage of a collection is turned into when one of its elements is written or deleted.
Whether a collection takes part in it at all depends on its storage, the name of the element and,
for arrays, on the component type. If it does, its storage changes and the answer is `true`; if not,
nothing changes and the answer is `false`. There is no other outcome.

## Main definitions

* `Host.Data.elementWrite?`, `Host.Data.elementRemoval?`: the change of storage, if there is one.
* `World.elementWrite?`, `World.elementRemoval?`: the same for the storage a value refers to.
* `World.answerChange`: the outcome of a change that is made or declined.

## Main results

* `Run.setElement_eq`, `Run.deleteProperty_eq`: writing and deleting an element.
-/

namespace Membrane

open Host (Component Data Value)

/-! ### Changes of storage -/

/-- Changes the items of a sequence if it has an item at the index that a name stands for. -/
def Host.Data.itemChange? (items : Array Value) (name : String)
    (change : Nat → Array Value → Array Value) : Option (Data → Data) :=
  (indexKey? name).bind fun i => if i < items.size then some (.changeItems (change i)) else none

theorem Host.Data.exists_of_itemChange? {items : Array Value} {name : String}
    {f : Nat → Array Value → Array Value} {change : Data → Data}
    (h : itemChange? items name f = some change) :
    ∃ i, indexKey? name = some i ∧ i < items.size ∧ change = .changeItems (f i) := by
  obtain ⟨i, hindex, h⟩ := Option.bind_eq_some_iff.1 h
  split at h
  · next hlt =>
    cases h
    exact ⟨i, hindex, hlt, rfl⟩
  · cases h

/-- A value as the items of an array hold it. -/
def Host.Component.heldAs? (component : Option Component) (v : Value) : Option Value :=
  match component with
  | some c => c.coerce? v
  | none => some v

/-- What a write of an element turns the storage into. An array takes what its component type can
hold. -/
def Host.Data.elementWrite? (component : Option Component) (name : String) (v : Value) :
    Data → Option (Data → Data)
  | .array items =>
    (Component.heldAs? component v).bind fun u =>
      itemChange? items name fun i => (·.setIfInBounds i u)
  | .list items => itemChange? items name fun i => (·.setIfInBounds i v)
  | .map _ => some (.changeEntries (·.put (.string name) v))
  | _ => none

/-- What the deletion of an element turns the storage into. Arrays of primitives keep what they
hold. -/
def Host.Data.elementRemoval? (component : Option Component) (name : String) :
    Data → Option (Data → Data)
  | .array items =>
    if component.any Component.isPrimitive then none
    else itemChange? items name fun i => (·.setIfInBounds i .null)
  | .list items => itemChange? items name fun i => (·.eraseIdxIfInBounds i)
  | .map _ => some (.changeEntries (·.erase (.string name)))
  | _ => none

namespace World

variable (w : World) (target : Value)

/-- The component type of the array a value refers to. -/
def component? : Option Component := (w.class? target).bind (·.own.component)

/-- What a write of an element turns the storage of a value into. -/
def elementWrite? (name : String) (v : Value) : Option (Data → Data) :=
  (w.data? target).bind (Data.elementWrite? (w.component? target) name v)

/-- What the deletion of an element turns the storage of a value into. -/
def elementRemoval? (name : String) : Option (Data → Data) :=
  (w.data? target).bind (Data.elementRemoval? (w.component? target) name)

/-- A change of storage that is made, or none that is declined. -/
def answerChange : Option (Data → Data) → Outcome Bool
  | some change => .ok true (w.changeData target change)
  | none => .ok false w

/-- A change is made or declined. -/
theorem answerChange_cases (change? : Option (Data → Data)) :
    w.answerChange target change? = .ok false w ∨
      ∃ change, w.answerChange target change? = .ok true (w.changeData target change) := by
  cases change? with
  | none => exact .inl rfl
  | some change => exact .inr ⟨change, rfl⟩

variable {w target}

/-- Items are changed if the index is in range. -/
theorem answerChange_itemChange? (items : Array Value) (name : String)
    (change : Nat → Array Value → Array Value) :
    (match indexKey? name with
      | some i =>
        if i < items.size then do
          set (w.changeItems target (change i))
          return true
        else return false
      | none => return false : Run Bool) w =
      w.answerChange target (Data.itemChange? items name change) := by
  unfold Data.itemChange?
  cases indexKey? name with
  | none => rfl
  | some i =>
    simp only [Option.bind_some]
    split <;> rfl

/-- An item is written if the index is in range and the value can be held. -/
theorem answerChange_heldAs (items : Array Value) (name : String) (u? : Option Value) :
    (match indexKey? name, u? with
      | some i, some u =>
        if i < items.size then do
          set (w.changeItems target (·.setIfInBounds i u))
          return true
        else return false
      | _, _ => return false : Run Bool) w =
      w.answerChange target
        (u?.bind fun u => Data.itemChange? items name fun i => (·.setIfInBounds i u)) := by
  cases u? with
  | none => cases indexKey? name <;> rfl
  | some u =>
    refine Eq.trans ?_ (answerChange_itemChange? items name fun i => (·.setIfInBounds i u))
    cases indexKey? name <;> rfl

end World

/-! ### The computations -/

namespace Run

open World (answerChange_itemChange? answerChange_heldAs)

variable (target : Value) (name : String) (w : World)

/-- To write an element is to make the change of storage it comes to, or to decline. -/
theorem setElement_eq (v : Value) :
    setElement target name v w = w.answerChange target (w.elementWrite? target name v) := by
  unfold setElement World.elementWrite?
  rw [get_bind]
  cases w.data? target with
  | none => rfl
  | some data =>
    cases data with
    | list items => exact answerChange_itemChange? items name fun i => (·.setIfInBounds i v)
    | array items =>
      exact answerChange_heldAs items name (Component.heldAs? (w.component? target) v)
    | _ => rfl

/-- To delete an element is to make the change of storage it comes to, or to decline. -/
theorem deleteProperty_eq (property : Script.Value) :
    deleteProperty target property w =
      w.answerChange target (property.propertyName?.bind (w.elementRemoval? target)) := by
  unfold deleteProperty World.elementRemoval?
  rw [get_bind]
  cases property.propertyName? with
  | none => rfl
  | some name =>
    cases w.data? target with
    | none => rfl
    | some data =>
      cases data with
      | list items => exact answerChange_itemChange? items name fun i => (·.eraseIdxIfInBounds i)
      | array items =>
        simp only [Option.bind_some, Data.elementRemoval?, World.component?]
        split
        · rfl
        · exact answerChange_itemChange? items name fun i => (·.setIfInBounds i .null)
      | _ => rfl

end Run

end Membrane
