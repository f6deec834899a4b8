import Membrane.Proofs.Elements
import Membrane.Proofs.Operations
import Membrane.Proofs.Requests

/-!
# What a handler writes

To answer a request, a handler changes the storage of its target or writes a field or a static
field. The methods that are built in change storage, too. Storage keeps its kind, and nothing else
is written but what the handler keeps for itself. So a relation of worlds that such changes keep is
kept by every answer, as long as crossing and the embedder's methods keep it.

## Main definitions

* `World.AllowsWrites`: that changes of storage and of fields keep a relation of worlds.

## Main results

* `Host.Data.kind_of_elementWrite?`, `Host.Data.kind_of_elementRemoval?`: writing and deleting an
  element keeps the kind of storage.
* `World.AllowsWrites.setElement`, `World.AllowsWrites.writeField`,
  `World.AllowsWrites.deleteProperty`: what a handler writes.
* `World.AllowsWrites.callMethod`, `World.AllowsWrites.parts`: methods, and all parts of answers.
-/

namespace Membrane

open Host (Component Data Value)

/-! ### Elements -/

namespace Host.Data

variable {component : Option Component} {name : String} {v : Value} {change : Data → Data}

theorem kind_of_itemChange? {items : Array Value} {f : Nat → Array Value → Array Value}
    (h : itemChange? items name f = some change) (data : Data) :
    (change data).kind = data.kind := by
  obtain ⟨i, -, -, rfl⟩ := exists_of_itemChange? h
  exact kind_changeItems _ data

/-- What a write of an element does to storage keeps its kind. -/
theorem kind_of_elementWrite? {data' : Data}
    (h : elementWrite? component name v data' = some change) (data : Data) :
    (change data).kind = data.kind := by
  cases data' with
  | array items =>
    obtain ⟨u, -, h⟩ := Option.bind_eq_some_iff.1 h
    exact kind_of_itemChange? h data
  | list items => exact kind_of_itemChange? h data
  | map entries =>
    cases h
    exact kind_changeEntries _ data
  | _ => cases h

/-- What the deletion of an element does to storage keeps its kind. -/
theorem kind_of_elementRemoval? {data' : Data}
    (h : elementRemoval? component name data' = some change) (data : Data) :
    (change data).kind = data.kind := by
  cases data' with
  | array items =>
    simp only [elementRemoval?] at h
    split at h
    · cases h
    · exact kind_of_itemChange? h data
  | list items => exact kind_of_itemChange? h data
  | map entries =>
    cases h
    exact kind_changeEntries _ data
  | _ => cases h

end Host.Data

/-! ### Writes -/

/-- Changes of storage within its kind, writes of fields and writes of static fields keep a relation
of worlds. -/
structure World.AllowsWrites (R : World → World → Prop) : Prop where
  /-- Storage. -/
  changeData : ∀ (w : World) (v : Value) (change : Data → Data),
    (∀ data, (change data).kind = data.kind) → R w (w.changeData v change)
  /-- Fields. -/
  setField : ∀ (w : World) (v : Value) (name : String) (u : Value), R w (w.setField v name u).2
  /-- Static fields. -/
  putStatic : ∀ (w : World) (c : Host.Class) (name : String) (u : Value),
    R w (w.putStatic c name u)

namespace World.AllowsWrites

variable {R : World → World → Prop} [IsPreorder World R] (hR : World.AllowsWrites R)
include hR

theorem answerChange (w : World) (target : Value) {change? : Option (Data → Data)}
    (hkind : ∀ change, change? = some change → ∀ data, (change data).kind = data.kind) :
    R w (w.answerChange target change?).world := by
  cases change? with
  | none => exact refl w
  | some change => exact hR.changeData w target change (hkind change rfl)

theorem setElement (target : Value) (name : String) (v : Value) :
    (Run.setElement target name v).Within R := by
  intro w
  rw [Run.setElement_eq]
  refine hR.answerChange w target fun change hchange => ?_
  obtain ⟨data, -, hwrite⟩ := Option.bind_eq_some_iff.1 hchange
  exact Data.kind_of_elementWrite? hwrite

theorem deleteProperty (target : Value) (property : Script.Value) :
    (Run.deleteProperty target property).Within R := by
  intro w
  rw [Run.deleteProperty_eq]
  refine hR.answerChange w target fun change hchange => ?_
  obtain ⟨name, -, hremoval⟩ := Option.bind_eq_some_iff.1 hchange
  obtain ⟨data, -, hremoval⟩ := Option.bind_eq_some_iff.1 hremoval
  exact Data.kind_of_elementRemoval? hremoval

theorem writeField (entry : Descriptor.FieldEntry) (target v : Value) :
    (Run.writeField entry target v).Within R := by
  unfold Run.writeField
  split
  · exact .pure _
  · split
    · exact fun w => hR.putStatic w _ _ _
    · exact fun w => hR.setField w target entry.field.name v

variable {eng : Engine} (hmethod : ∀ code receiver args, (eng.method code receiver args).Within R)
include hmethod

/-- A method of the host. -/
theorem callMethod (m : Host.Method) (receiver : Value) (args : List Value) :
    (eng.callMethod m receiver args).Within R := by
  unfold Engine.callMethod
  split
  · exact Host.BuiltIn.within_run hR.changeData _ _ receiver args
  · exact hmethod _ receiver args

/-- The parts of a handler's answers keep a relation that allows writes, if crossing does, making
callables and capturing keys. -/
theorem parts (hscript : ∀ v, (eng.toScript v).Within R) (hhost : ∀ s, (eng.toHost s).Within R)
    (hfunction : ∀ k, (Run.newFunction k).Within R) (hkeys : ∀ r, (Run.uniqueKeys r).Within R)
    (h : Handler) : h.HoldsOfParts eng fun _ x => x.Within R where
  toHoldsOfParts := Run.Within.holdsOfParts
  readPrototype _ := Run.Within.holdsOfParts.readPrototype (.throw _) .raise hfunction _ _
  exhausted := .throw _
  readField _ _ _ hf := .bind .get fun _ => hf _
  toScript := hscript
  toHost := hhost
  newFunction _ := hfunction _
  callMethod _ args := hR.callMethod hmethod _ h.target args
  setElement := hR.setElement h.target
  writeField _ v := hR.writeField _ h.target v
  deleteProperty := hR.deleteProperty h.target
  uniqueKeys := hkeys

end World.AllowsWrites

end Membrane
