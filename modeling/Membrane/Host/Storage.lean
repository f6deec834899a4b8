import Membrane.StringForm

/-!
# Storage of host objects

Reading and replacing what host objects hold. An object keeps the kind of its storage for life: a
list is only ever replaced by a list.

Source: specification, section 2, "Host object model".

## Main definitions

* `World.list?`, `World.set?`, `World.map?`, `World.array?`, `World.classRef?`: the storage a value
  refers to.
* `World.changeData`, `World.changeItems`, `World.changeMembers`, `World.changeEntries`: changes of
  the storage.
* `World.setField`, `World.static?`, `World.putStatic`: fields.
* `Run.newObject`, `Run.newList` and the other allocations.
-/

namespace Membrane

open Host (Component Data Object)

namespace World

/-- The object a value refers to. -/
def object? (w : World) (v : Host.Value) : Option Object := v.object?.bind w.objects.get?

/-- The storage of the object a value refers to. -/
def data? (w : World) (v : Host.Value) : Option Data := (w.object? v).map Object.data

/-- The items of a list. -/
def list? (w : World) (v : Host.Value) : Option (Array Host.Value) :=
  match w.data? v with
  | some (.list items) => some items
  | _ => none

/-- The members of a set. -/
def set? (w : World) (v : Host.Value) : Option (List Host.Value) :=
  match w.data? v with
  | some (.set members) => some members
  | _ => none

/-- The entries of a map. -/
def map? (w : World) (v : Host.Value) : Option (Dictionary Host.Value Host.Value) :=
  match w.data? v with
  | some (.map entries) => some entries
  | _ => none

/-- The items of an array. -/
def array? (w : World) (v : Host.Value) : Option (Array Host.Value) :=
  match w.data? v with
  | some (.array items) => some items
  | _ => none

/-- The class a value is a reference to. -/
def classRef? (w : World) (v : Host.Value) : Option Host.Class :=
  match w.data? v with
  | some (.classRef c) => some c
  | _ => none

/-- The class of a value. Null and values held by the script have none. -/
def class? (w : World) (v : Host.Value) : Option Host.Class :=
  match v with
  | .object r => (w.objects.get? r).map Object.cls
  | v => v.primitive?.map Host.Library.wrapper

/-- Changes the storage of the object a value refers to. -/
def changeData (w : World) (v : Host.Value) (change : Data → Data) : World :=
  match v with
  | .object r => { w with objects := w.objects.modify r fun o => { o with data := change o.data } }
  | _ => w

/-- Replaces the storage of the object a value refers to. -/
def putData (w : World) (v : Host.Value) (data : Data) : World := w.changeData v fun _ => data

/-- Changes the items of the list or array a value refers to. -/
def changeItems (w : World) (v : Host.Value) (change : Array Host.Value → Array Host.Value) :
    World :=
  w.changeData v (Data.changeItems change)

/-- Changes the members of the set a value refers to. -/
def changeMembers (w : World) (v : Host.Value) (change : List Host.Value → List Host.Value) :
    World :=
  w.changeData v (Data.changeMembers change)

/-- Changes the entries of the map a value refers to. -/
def changeEntries (w : World) (v : Host.Value)
    (change : Dictionary Host.Value Host.Value → Dictionary Host.Value Host.Value) : World :=
  w.changeData v (Data.changeEntries change)

/-- Writes a field slot; the flag tells whether the object has it. -/
def setField (w : World) (v : Host.Value) (name : String) (value : Host.Value) : Bool × World :=
  match v with
  | .object r =>
    match (w.objects.get? r).bind (·.field? name) with
    | some _ =>
      (true, { w with
        objects := w.objects.modify r fun o => { o with fields := o.fields.put name value } })
    | none => (false, w)
  | _ => (false, w)

/-- The value of a static field that a class declares. -/
def static? (w : World) (c : Host.Class) (name : String) : Option Host.Value :=
  w.statics.get? (c, name)

/-- Stores a static field of a class. -/
def putStatic (w : World) (c : Host.Class) (name : String) (value : Host.Value) : World :=
  { w with statics := w.statics.put (c, name) value }

end World

namespace Run

/-- Makes a host object. -/
def newObject (o : Object) : Run Host.Value := modifyGet fun w =>
  (.object w.objects.next, { w with objects := w.objects.alloc o })

/-- Makes a list. -/
def newList (items : List Host.Value) : Run Host.Value :=
  newObject (Object.new Host.Library.list (.list items.toArray))

/-- Makes a set of values, inserted one after the other. -/
def newSet (values : List Host.Value) : Run Host.Value :=
  newObject (Object.new Host.Library.set (.set (Members.ofList values)))

/-- Makes a map of entries, put in one after the other. -/
def newMap (entries : List (Host.Value × Host.Value)) : Run Host.Value :=
  newObject (Object.new Host.Library.map (.map (Dictionary.ofEntries entries)))

/-- Makes an array of a component type. Items that it cannot hold are replaced by its zero. -/
def newArray (c : Component) (items : List Host.Value) : Run Host.Value :=
  newObject (Object.new (Host.Library.arrayOf c)
    (.array (items.map fun v => (c.coerce? v).getD c.zero).toArray))

/-- Makes a reference to a class. -/
def newClassRef (c : Host.Class) : Run Host.Value :=
  newObject (Object.new Host.Library.classes (.classRef c))

/-- Makes a script array. -/
def newScriptArray (items : List Script.Value) : Run Script.Value := modifyGet fun w =>
  (.array w.arrays.next, { w with arrays := w.arrays.alloc items })

/-- Makes a plain script object with the given properties, written one after the other. -/
def newRecord (properties : List (Script.Key × Script.Value)) : Run Script.Value :=
  modifyGet fun w =>
    (.object w.records.next,
      { w with records := w.records.alloc (Dictionary.ofEntries properties) })

/-- Makes a callable. -/
def newFunction (c : Callable) : Run Script.Value := modifyGet fun w =>
  (.function w.functions.next, { w with functions := w.functions.alloc c })

end Run

/-- The storage a fresh instance of a shape has. -/
def Host.Data.empty : Host.Shape → Host.Data
  | .plain => .plain
  | .list => .list #[]
  | .set => .set []
  | .map => .map []
  | .array => .array #[]

end Membrane
