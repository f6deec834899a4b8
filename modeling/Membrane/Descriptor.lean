import Membrane.Config.Basic
import Membrane.Data.Dictionary
import Membrane.Host.Library
import Membrane.Text.LetterCase

/-!
# Descriptors

A descriptor records what scripts can reach on the instances of a class, or on the class itself when
a reference to it is the target. It is built once from the hierarchy and never changes: of the
public members of a name, the nearest declaration is exposed, and methods of one name form a group
with one overload per number of arguments.

Source: specification, section 3, "ClassDescriptor", and section 4.1.

## Main definitions

* `Descriptor.FieldEntry`, `Descriptor.MethodGroup`, `Descriptor`.
* `Descriptor.build`: the descriptor of a class in one of two modes.
* `Descriptor.getter?`, `Descriptor.setter?`: the accessor method behind a property.
* `Descriptor.getterProperties`: the properties that getters contribute.
-/

namespace Membrane

open Host (Method Shape)

/-- An exposed field and the class that declares it. -/
structure Descriptor.FieldEntry where
  /-- The field. -/
  field : Host.Field
  /-- The class that declares it. -/
  owner : Host.Class
  deriving DecidableEq

/-- The exposed methods of one name, nearest declaration first. -/
structure Descriptor.MethodGroup where
  /-- The name of the methods. -/
  name : String
  /-- The methods, no two with the same number of arguments. -/
  overloads : List Method
  deriving DecidableEq

namespace Descriptor.MethodGroup

/-- The group with one more overload, unless one with the same number of arguments is there. -/
def add (g : MethodGroup) (m : Method) : MethodGroup :=
  if g.overloads.any (·.arity == m.arity) then g else { g with overloads := g.overloads ++ [m] }

/-- The overload for a number of arguments: one that takes exactly as many, else one that takes any
number. -/
def select? (g : MethodGroup) (count : Nat) : Option Method :=
  (g.overloads.find? (·.arity == some count)).or (g.overloads.find? (·.arity.isNone))

/-- The overload that takes exactly a number of arguments. -/
def overload? (g : MethodGroup) (count : Nat) : Option Method :=
  g.overloads.find? (·.arity == some count)

end Descriptor.MethodGroup

/-- What scripts can reach on the instances of a class or on the class itself. -/
structure Descriptor where
  /-- The described class. -/
  target : Host.Class
  /-- Whether the class itself is described, and not its instances. -/
  isStatic : Bool
  /-- The shape of the described values. -/
  shape : Shape
  /-- The wrapper type of the described values. -/
  primitive : Option Host.Primitive
  /-- The exposed fields in order of discovery. -/
  fields : Dictionary String Descriptor.FieldEntry
  /-- The exposed methods in order of discovery. -/
  methods : Dictionary String Descriptor.MethodGroup
  /-- The method names that give way to prototype functions. -/
  overrides : List String
  /-- Whether accessor methods answer for properties. -/
  accessors : Bool
  /-- What the names of getters start with. -/
  getterPrefixes : List String
  /-- What the names of setters start with. -/
  setterPrefixes : List String
  deriving DecidableEq

namespace Descriptor

/-- The public fields of the given staticness that a class declares, with their owner. -/
def fieldsOf (statics : Bool) (c : Host.Class) : List FieldEntry :=
  (c.own.fields.filter fun f => f.isPublic && f.isStatic == statics).map fun f => ⟨f, c⟩

/-- The public methods of the given staticness that a class declares. -/
def methodsOf (statics : Bool) (c : Host.Class) : List Method :=
  c.own.methods.filter fun m => m.isPublic && m.isStatic == statics

/-- The fields a descriptor collects, in order of search: those of the instances, or the static ones
of the class before the instance fields of class references. -/
def fieldSequence (c : Host.Class) (isStatic : Bool) : List FieldEntry :=
  if isStatic then
    c.hierarchy.flatMap (fieldsOf true) ++ Host.Library.classes.hierarchy.flatMap (fieldsOf false)
  else c.hierarchy.flatMap (fieldsOf false)

/-- The methods a descriptor collects, in order of search. -/
def methodSequence (c : Host.Class) (isStatic : Bool) : List Method :=
  if isStatic then
    c.hierarchy.flatMap (methodsOf true) ++
      Host.Library.classes.hierarchy.flatMap (methodsOf false)
  else c.hierarchy.flatMap (methodsOf false)

/-- The fields by name, the first of each name only. -/
def collectFields (entries : List FieldEntry) : Dictionary String FieldEntry :=
  entries.foldl (fun d e => d.putNew e.field.name e) []

/-- The methods with one more joined to the group of its name, or starting that group. -/
def addMethod (d : Dictionary String MethodGroup) (m : Method) : Dictionary String MethodGroup :=
  d.put m.name (((d.get? m.name).getD ⟨m.name, []⟩).add m)

/-- The methods by name, grouped. -/
def collectMethods (methods : List Method) : Dictionary String MethodGroup :=
  methods.foldl addMethod []

/-- The descriptor of a class's instances, or of the class itself. -/
def build (config : Config) (c : Host.Class) (isStatic : Bool) : Descriptor :=
  let shape := if isStatic then .plain else c.shape
  { target := c
    isStatic := isStatic
    shape := shape
    primitive := if isStatic then none else c.own.primitive
    fields := collectFields (fieldSequence c isStatic)
    methods := collectMethods (methodSequence c isStatic)
    overrides := config.overridesFor shape
    accessors := config.accessors
    getterPrefixes := config.getterPrefixes
    setterPrefixes := config.setterPrefixes }

/-- The exposed field of a name. -/
def field? (d : Descriptor) (name : String) : Option FieldEntry := d.fields.get? name

/-- The exposed methods of a name. -/
def method? (d : Descriptor) (name : String) : Option MethodGroup := d.methods.get? name

/-- Whether a method name gives way to a prototype function. -/
def isOverride (d : Descriptor) (name : String) : Bool := d.overrides.contains name

/-- The method with the given number of arguments whose name is one of the given beginnings followed
by the property's name with a capital first letter. Earlier beginnings win. -/
def accessor? (d : Descriptor) (beginnings : List String) (count : Nat) (property : String) :
    Option Method :=
  if !d.accessors then none
  else
    match Text.capitalize? property.toList with
    | none => none
    | some suffix =>
      beginnings.findSome? fun lead =>
        (d.method? (lead ++ String.ofList suffix)).bind (·.overload? count)

/-- The method without arguments that reads a property. -/
def getter? (d : Descriptor) (property : String) : Option Method :=
  d.accessor? d.getterPrefixes 0 property

/-- The method with one argument that writes a property. -/
def setter? (d : Descriptor) (property : String) : Option Method :=
  d.accessor? d.setterPrefixes 1 property

/-- The rest of a text that starts with another. -/
def dropLead? : List Char → List Char → Option (List Char)
  | [], cs => some cs
  | _ :: _, [] => none
  | l :: ls, c :: cs => if l = c then dropLead? ls cs else none

/-- The property a method name reads: the name after the first beginning that is followed by an
upper-case letter, with that letter in small form. -/
def propertyOf? (beginnings : List String) (name : String) : Option String :=
  beginnings.findSome? fun lead =>
    ((dropLead? lead.toList name.toList).bind Text.uncapitalize?).map String.ofList

/-- The properties that methods without arguments contribute, in order of discovery. -/
def getterProperties (d : Descriptor) : List String :=
  if !d.accessors then []
  else
    d.methods.filterMap fun (name, group) =>
      if (group.overload? 0).isSome then propertyOf? d.getterPrefixes name else none

end Descriptor

end Membrane
