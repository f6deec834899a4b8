import Membrane.Host.Component

/-!
# Classes

A class declares fields and methods on top of a base class; the root alone has none. The classes of
a hierarchy are listed from the class itself up to the root, and whatever the nearest class declares
comes first.

What a method does is named, not stored: a body is one of the built-in operations or a code whose
meaning the embedder gives. Classes are therefore plain data. Two classes may have the same name;
the serial number in a declaration tells them apart.

Source: specification, section 2, "Host object model".

## Main definitions

* `Host.Shape`: how instances store their content.
* `Host.Field`, `Host.Method`, `Host.Body`, `Host.BuiltIn`.
* `Host.Class`, with `Host.Class.hierarchy` and `Host.Class.shape`.
-/

namespace Membrane.Host

/-- How the instances of a class store their content. -/
inductive Shape where
  | plain
  | list
  | set
  | map
  | array
  deriving DecidableEq

/-- The operations of the built-in classes. -/
inductive BuiltIn where
  | text
  | hashCode
  | equals
  | className
  | listAdd
  | listInsert
  | listGet
  | listSet
  | listRemove
  | listSize
  | listIsEmpty
  | listClear
  | listContains
  | listIndexOf
  | setAdd
  | setRemove
  | setContains
  | setSize
  | setIsEmpty
  | setClear
  | mapGet
  | mapPut
  | mapRemove
  | mapContainsKey
  | mapSize
  | mapIsEmpty
  | mapClear
  deriving DecidableEq

/-- What a method does: a built-in operation, or code of the embedder. -/
inductive Body where
  | builtIn (b : BuiltIn)
  | custom (code : Nat)
  deriving DecidableEq

/-- A declared field. -/
structure Field where
  /-- The name of the field. -/
  name : String
  /-- Whether the class has one such field, and not each instance. -/
  isStatic : Bool
  /-- Whether scripts may see the field. -/
  isPublic : Bool
  /-- Whether writes are refused. -/
  isFinal : Bool
  deriving DecidableEq

/-- A declared method. -/
structure Method where
  /-- The name of the method. -/
  name : String
  /-- The number of arguments; any number if there is none. -/
  arity : Option Nat
  /-- Whether the method runs without a receiver. -/
  isStatic : Bool
  /-- Whether scripts may see the method. -/
  isPublic : Bool
  /-- What the method does. -/
  body : Body
  deriving DecidableEq

namespace Method

/-- Whether the method can be called with `count` arguments. -/
def accepts (m : Method) (count : Nat) : Bool := m.arity.all (· == count)

end Method

/-- What a class itself declares. -/
structure Declaration where
  /-- A number that no other class has. -/
  serial : Nat
  /-- The name of the class. -/
  name : String
  /-- The shape of its instances, where it does not follow the base class. -/
  shape : Option Shape
  /-- The component type, for classes of arrays. -/
  component : Option Component
  /-- The wrapper type, for classes of primitives. -/
  primitive : Option Primitive
  /-- The declared fields in order. -/
  fields : List Field
  /-- The declared methods in order. -/
  methods : List Method
  deriving DecidableEq

/-- A class: its own declaration, and its base class unless it is the root. -/
inductive Class where
  | root (own : Declaration)
  | extending (own : Declaration) (base : Class)
  deriving DecidableEq

namespace Class

/-- What the class itself declares. -/
def own : Class → Declaration
  | root d => d
  | extending d _ => d

/-- The base class. -/
def base? : Class → Option Class
  | root _ => none
  | extending _ b => some b

/-- The name of the class. -/
def name (c : Class) : String := c.own.name

/-- The class, its base class, and so on up to the root. -/
def hierarchy (c : Class) : List Class :=
  match c with
  | root _ => [c]
  | extending _ b => c :: hierarchy b

/-- The shape of the class's instances: the one declared nearest in the hierarchy. -/
def shape : Class → Shape
  | root d => d.shape.getD .plain
  | extending d b => d.shape.getD (shape b)

/-- The names of the fields that instances have slots for, nearest declaration first. -/
def slotNames (c : Class) : List String :=
  c.hierarchy.flatMap fun d => (d.own.fields.filter (!·.isStatic)).map Field.name

end Class

end Membrane.Host
