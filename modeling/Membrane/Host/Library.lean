import Membrane.Host.Class

/-!
# Built-in classes

The root class `Object`, the class of class references, the collections, the array classes and the
wrapper classes of primitives. Serial numbers below `Library.firstSerial` belong to them.

Source: specification, section 2, "Host object model": the built-in classes.

## Main definitions

* `Library.object`, `Library.classes`, `Library.list`, `Library.set`, `Library.map`.
* `Library.arrayOf`, `Library.wrapper`.
-/

namespace Membrane.Host.Library

/-- A public instance method with a built-in body. -/
def method (name : String) (arity : Nat) (body : BuiltIn) : Method :=
  ⟨name, some arity, false, true, .builtIn body⟩

/-- The root class. -/
def object : Class :=
  .root ⟨0, "Object", none, none, none, [],
    [method "toString" 0 .text, method "hashCode" 0 .hashCode, method "equals" 1 .equals]⟩

/-- The class of class references. -/
def classes : Class :=
  .extending ⟨1, "Class", none, none, none, [], [method "getName" 0 .className]⟩ object

/-- The class of lists. -/
def list : Class :=
  .extending ⟨2, "List", some .list, none, none, [],
    [method "add" 1 .listAdd, method "add" 2 .listInsert, method "get" 1 .listGet,
      method "set" 2 .listSet, method "remove" 1 .listRemove, method "size" 0 .listSize,
      method "isEmpty" 0 .listIsEmpty, method "clear" 0 .listClear,
      method "contains" 1 .listContains, method "indexOf" 1 .listIndexOf]⟩ object

/-- The class of sets. -/
def set : Class :=
  .extending ⟨3, "Set", some .set, none, none, [],
    [method "add" 1 .setAdd, method "remove" 1 .setRemove, method "contains" 1 .setContains,
      method "size" 0 .setSize, method "isEmpty" 0 .setIsEmpty, method "clear" 0 .setClear]⟩ object

/-- The class of maps. -/
def map : Class :=
  .extending ⟨4, "Map", some .map, none, none, [],
    [method "get" 1 .mapGet, method "put" 2 .mapPut, method "remove" 1 .mapRemove,
      method "containsKey" 1 .mapContainsKey, method "size" 0 .mapSize,
      method "isEmpty" 0 .mapIsEmpty, method "clear" 0 .mapClear]⟩ object

/-- The number of an array class among the built-in classes. -/
def arraySerial : Component → Nat
  | .boolean => 5
  | .byte => 6
  | .char => 7
  | .short => 8
  | .int => 9
  | .long => 10
  | .float => 11
  | .double => 12
  | .object => 13

/-- The class of arrays of a component type. -/
def arrayOf (c : Component) : Class :=
  .extending ⟨arraySerial c, c.name ++ "[]", some .array, some c, none, [], []⟩ object

/-- The number of a wrapper class among the built-in classes. -/
def wrapperSerial : Primitive → Nat
  | .boolean => 14
  | .byte => 15
  | .character => 16
  | .double => 17
  | .float => 18
  | .integer => 19
  | .long => 20
  | .short => 21
  | .bigInteger => 22
  | .string => 23

/-- The wrapper class of a primitive. -/
def wrapper (p : Primitive) : Class :=
  .extending ⟨wrapperSerial p, p.name, none, none, some p, [], []⟩ object

/-- The first serial number that the built-in classes leave free. -/
def firstSerial : Nat := 24

end Membrane.Host.Library
