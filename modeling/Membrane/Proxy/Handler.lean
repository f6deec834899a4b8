import Membrane.Prototype.Binding
import Membrane.Proxy.Property

/-!
# The traps of a handler

A handler answers for one host value. A property is read by asking resolvers in a fixed order: the
content of a collection, then fields, methods, symbols and getters of the class, and last the
prototype functions of the shape. Membership, writing and deletion ask fewer, and a refused write is
an answer, not a fault.

Source: specification, section 3, "ProxyHandler" and "Unique key set", and section 4.2.

## Main definitions

* `Engine.resolve`, `Engine.getProperty`: reading.
* `Engine.hasProperty`, `Engine.setProperty`: membership and writing.
* `Run.deleteProperty`, `Run.ownKeys`, `Run.uniqueKeys`: deletion and enumeration.
* `Run.trapFunctions`, `Run.handlerObject`: the callables an engine installs.
-/

namespace Membrane

open Host (Value)

/-- The elements a collection shows under a name: items by index, the length of an array, and the
entries of a map by string key. -/
def World.element? (w : World) (target : Value) (name : String) : Option Value :=
  match w.data? target with
  | some (.array items) | some (.list items) => (indexKey? name).bind (items[·]?)
  | some (.map entries) => entries.get? (.string name)
  | _ => none

/-- The value of an exposed field on a target: static fields are read from the class that declares
them. -/
def World.readField (w : World) (entry : Descriptor.FieldEntry) (target : Value) : Value :=
  if entry.field.isStatic then (w.static? entry.owner entry.field.name).getD .null
  else ((w.object? target).bind (·.field? entry.field.name)).getD .null

/-- Writes an exposed field on a target; final fields refuse. -/
def Run.writeField (entry : Descriptor.FieldEntry) (target v : Value) : Run Bool := do
  if entry.field.isFinal then return false
  else if entry.field.isStatic then
    modify (·.putStatic entry.owner entry.field.name v)
    return true
  else
    let (accepted, w) := (← get).setField target entry.field.name v
    set w
    return accepted

/-- The prototype property of a name that a target has. -/
def Handler.prototype? (h : Handler) (name : String) : Option Prototype.Function :=
  Prototype.find? h.descriptor.shape h.descriptor.primitive name

/-- The first answer of some resolvers. -/
def Run.firstAnswer {α : Type} : List (Run (Option α)) → Run (Option α)
  | [] => return none
  | r :: rest => do
    match ← r with
    | some a => return some a
    | none => firstAnswer rest

/-- Carries an answer on. -/
def Run.answerWith {α β : Type} (f : α → Run β) (o : Option α) : Run (Option β) :=
  match o with
  | some a => do return some (← f a)
  | none => return none

namespace Engine

variable (eng : Engine) (h : Handler) (property : Script.Value)

/-- The content of a collection. -/
def getElement : Run (Option Script.Value) := do
  let w ← get
  match property.propertyName? with
  | none => return none
  | some name =>
    match w.array? h.target with
    | some items =>
      if name = "length" then return some (.ofIndex items.size)
      else Run.answerWith eng.toScript (w.element? h.target name)
    | none => Run.answerWith eng.toScript (w.element? h.target name)

/-- An exposed field. -/
def getField : Run (Option Script.Value) := do
  let w ← get
  Run.answerWith (fun e => eng.toScript (w.readField e h.target))
    (property.propertyName?.bind h.descriptor.field?)

/-- The exposed methods of a name, unless the name gives way to a prototype function. -/
def getMethod : Run (Option Script.Value) :=
  Run.answerWith (fun g => Run.newFunction (.methods g h.target))
    ((property.propertyName?.filter fun name => !h.descriptor.isOverride name).bind
      h.descriptor.method?)

/-- The conversions and iterators that well-known symbols stand for. -/
def getSymbol : Run (Option Script.Value) := do
  match property with
  | .symbol s =>
    let w ← get
    if s == .toPrimitive then return some (← Run.newFunction (.toPrimitive h.target))
    else if s == .iterator && w.isIterable h.target then
      return some (← Run.newFunction (.iterate h.target (w.defaultKind h.target)))
    else return none
  | _ => return none

/-- A property that an accessor method answers for. -/
def getAccessor : Run (Option Script.Value) :=
  Run.answerWith
    (fun m => do
      let v ← eng.callMethod m h.target []
      eng.toScript v)
    (property.propertyName?.bind h.descriptor.getter?)

/-- A prototype property of the target's shape. -/
def getPrototype : Run (Option Script.Value) :=
  Run.answerWith (fun f => f.read h.target) (property.propertyName?.bind h.prototype?)

/-- The answer of the first resolver that has one. -/
def resolve : Run (Option Script.Value) :=
  Run.firstAnswer
    [eng.getElement h property, eng.getField h property, getMethod h property,
      getSymbol h property, eng.getAccessor h property, getPrototype h property]

/-- The `get` trap. -/
def getProperty : Run Script.Value := do return (← eng.resolve h property).getD .undefined

/-- Whether a collection contains what the property stands for: maps and sets by key or member,
arrays by index, lists by both. -/
def hasElement : Run Bool := do
  let w ← get
  let index := property.propertyName?.bind indexKey?
  match w.data? h.target with
  | some (.map entries) => return entries.contains (← eng.toHost property)
  | some (.set members) => return Members.contains members (← eng.toHost property)
  | some (.list items) =>
    let v ← eng.toHost property
    return items.any (· == v) || index.any (· < items.size)
  | some (.array items) => return index.any (· < items.size)
  | _ => return false

end Engine

namespace Handler

variable (h : Handler) (property : Script.Value)

/-- Whether a field, a method or a getter answers for the property. -/
def hasMember : Bool :=
  property.propertyName?.any fun name =>
    (h.descriptor.field? name).isSome || (h.descriptor.method? name).isSome ||
      (h.descriptor.getter? name).isSome

/-- Whether the target's shape has a prototype property of the name. -/
def hasPrototype : Bool := property.propertyName?.any fun name => (h.prototype? name).isSome

end Handler

namespace Run

/-- Writes the element of a collection that a name stands for: items of lists and arrays at existing
indices, as far as an array can hold the value, and entries of maps. -/
def setElement (target : Value) (name : String) (v : Value) : Run Bool := do
  let w ← get
  match w.data? target with
  | some (.array items) =>
    let component := (w.class? target).bind (·.own.component)
    let coerced := match component with
      | some c => c.coerce? v
      | none => some v
    match indexKey? name, coerced with
    | some i, some v =>
      if i < items.size then
        set (w.changeItems target (·.setIfInBounds i v))
        return true
      else return false
    | _, _ => return false
  | some (.list items) =>
    match indexKey? name with
    | some i =>
      if i < items.size then
        set (w.changeItems target (·.setIfInBounds i v))
        return true
      else return false
    | none => return false
  | some (.map _) =>
    set (w.changeEntries target (·.put (.string name) v))
    return true
  | _ => return false

end Run

namespace Engine

variable (eng : Engine) (h : Handler)

/-- The `has` trap. -/
def hasProperty (property : Script.Value) : Run Bool := do
  return (← eng.hasElement h property) || h.hasMember property || h.hasPrototype property

/-- Writes a property by its setter method, if it has one. -/
def setAccessor (name : String) (v : Value) : Run Bool :=
  match h.descriptor.setter? name with
  | some m => do
    let _ ← eng.callMethod m h.target [v]
    return true
  | none => return false

/-- Writes a property of the name: an element, else a field, else by its setter. -/
def setNamed (name : String) (v : Value) : Run Bool := do
  if ← Run.setElement h.target name v then return true
  else
    let accepted ← match h.descriptor.field? name with
      | some entry => Run.writeField entry h.target v
      | none => pure false
    if accepted then return true else eng.setAccessor h name v

/-- The `set` trap; `false` means that the write was not accepted. -/
def setProperty (property value : Script.Value) : Run Bool := do
  match property.propertyName? with
  | none => return false
  | some name => eng.setNamed h name (← eng.toHost value)

end Engine

namespace Run

/-- The `deleteProperty` trap: a list closes the gap, an array of objects keeps null in its place, a
map drops the entry if there is one. -/
def deleteProperty (target : Value) (property : Script.Value) : Run Bool := do
  let w ← get
  match property.propertyName?, w.data? target with
  | some name, some (.array items) =>
    if ((w.class? target).bind (·.own.component)).any Host.Component.isPrimitive then return false
    else
      match indexKey? name with
      | some i =>
        if i < items.size then
          set (w.changeItems target (·.setIfInBounds i .null))
          return true
        else return false
      | none => return false
  | some name, some (.list items) =>
    match indexKey? name with
    | some i =>
      if i < items.size then
        set (w.changeItems target (·.eraseIdxIfInBounds i))
        return true
      else return false
    | none => return false
  | some name, some (.map _) =>
    set (w.changeEntries target (·.erase (.string name)))
    return true
  | _, _ => return false

/-- The string forms of keys, null left out. -/
def keyTexts (keys : List Value) : Run (List String) := (keys.filter (!·.isNull)).mapM (hostText ·)

/-- The keys a handler captures: the keys of a map, the members of a set, and the exposed fields and
accessor properties of anything else. -/
def capturedKeys (h : Handler) : Run (List String) := do
  match (← get).data? h.target with
  | some (.map entries) => return Members.ofList (← keyTexts entries.keys)
  | some (.set members) => return Members.ofList (← keyTexts members)
  | _ => return Members.ofList (h.descriptor.fields.keys ++ h.descriptor.getterProperties)

/-- The keys captured when they were first asked for. -/
def uniqueKeys (r : Ref .handler) : Run (List String) := do
  match (← get).handlers.get? r with
  | none => return []
  | some h =>
    match h.uniqueKeys with
    | some keys => return keys
    | none =>
      let keys ← capturedKeys h
      modify fun w =>
        { w with handlers := w.handlers.modify r fun h => { h with uniqueKeys := some keys } }
      return keys

/-- The `ownKeys` trap: the present content of a collection, and the captured keys of anything
else. -/
def ownKeys (r : Ref .handler) : Run (List String) := do
  let w ← get
  match (w.handlers.get? r).bind (w.data? ·.target) with
  | some (.map entries) => keyTexts entries.keys
  | some (.set members) => keyTexts members
  | some (.list items) | some (.array items) =>
    return (List.range items.size).map fun i => toString i
  | _ => uniqueKeys r

/-- The callables of the five traps, made when they are first asked for. -/
def trapFunctions (r : Ref .handler) : Run (List (Trap × Ref .function)) := do
  let w ← get
  match (w.handlers.get? r).bind Handler.traps with
  | some traps => return traps
  | none =>
    let first := w.functions.size
    let traps := Trap.all.zipIdx.map fun (t, i) => (t, (⟨first + i⟩ : Ref .function))
    let functions := Trap.all.foldl (fun s t => s.alloc (.trap r t)) w.functions
    let handlers := w.handlers.modify r fun h => { h with traps := some traps }
    set { w with functions := functions, handlers := handlers }
    return traps

/-- A script object with the trap callables. -/
def handlerObject (r : Ref .handler) : Run Script.Value := do
  let traps ← trapFunctions r
  newRecord (traps.map fun (t, f) => (.string t.name, .function f))

end Run

end Membrane
