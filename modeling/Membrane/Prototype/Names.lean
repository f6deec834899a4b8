import Membrane.Host.Class

/-!
# Prototype functions

The properties a script expects of its own arrays and sets, and the two it expects of wrapped
primitives. A host list, set or primitive that does not offer such a property itself is given it
from here.

Source: specification, section 6, polyfilled names.

## Main definitions

* `Prototype.ListFunction`, `Prototype.SetFunction`, `Prototype.WrapperFunction`: the properties,
  each with its `name`, the list `all` and the look-up `ofName?`.
* `Prototype.Function`: a property of any of the three.
* `Prototype.find?`: the property of a name that a shape or wrapper has.
-/

namespace Membrane.Prototype

/-- The properties of lists. -/
inductive ListFunction where
  | item
  | concat
  | copyWithin
  | entries
  | every
  | fill
  | filter
  | find
  | findIndex
  | findLast
  | findLastIndex
  | forEach
  | includes
  | indexOf
  | join
  | keys
  | lastIndexOf
  | length
  | map
  | pop
  | push
  | reduce
  | reduceRight
  | reverse
  | shift
  | size
  | slice
  | someOf
  | sort
  | splice
  | toJSON
  | toReversed
  | toSorted
  | toSpliced
  | unshift
  | values
  | withItem
  deriving DecidableEq

namespace ListFunction

/-- All properties of lists, in alphabetical order. -/
def all : List ListFunction :=
  [item, concat, copyWithin, entries, every, fill, filter, find, findIndex, findLast,
    findLastIndex, forEach, includes, indexOf, join, keys, lastIndexOf, length, map, pop, push,
    reduce, reduceRight, reverse, shift, size, slice, someOf, sort, splice, toJSON, toReversed,
    toSorted, toSpliced, unshift, values, withItem]

/-- The name of a property. -/
def name : ListFunction → String
  | item => "at"
  | concat => "concat"
  | copyWithin => "copyWithin"
  | entries => "entries"
  | every => "every"
  | fill => "fill"
  | filter => "filter"
  | find => "find"
  | findIndex => "findIndex"
  | findLast => "findLast"
  | findLastIndex => "findLastIndex"
  | forEach => "forEach"
  | includes => "includes"
  | indexOf => "indexOf"
  | join => "join"
  | keys => "keys"
  | lastIndexOf => "lastIndexOf"
  | length => "length"
  | map => "map"
  | pop => "pop"
  | push => "push"
  | reduce => "reduce"
  | reduceRight => "reduceRight"
  | reverse => "reverse"
  | shift => "shift"
  | size => "size"
  | slice => "slice"
  | someOf => "some"
  | sort => "sort"
  | splice => "splice"
  | toJSON => "toJSON"
  | toReversed => "toReversed"
  | toSorted => "toSorted"
  | toSpliced => "toSpliced"
  | unshift => "unshift"
  | values => "values"
  | withItem => "with"

/-- The property of a name. -/
def ofName? (name : String) : Option ListFunction := all.find? (·.name == name)

end ListFunction

/-- The properties of sets. -/
inductive SetFunction where
  | add
  | clear
  | delete
  | entries
  | forEach
  | has
  | keys
  | size
  | toJSON
  | toString
  | values
  deriving DecidableEq

namespace SetFunction

/-- All properties of sets, in alphabetical order. -/
def all : List SetFunction :=
  [add, clear, delete, entries, forEach, has, keys, size, toJSON, toString, values]

/-- The name of a property. -/
def name : SetFunction → String
  | add => "add"
  | clear => "clear"
  | delete => "delete"
  | entries => "entries"
  | forEach => "forEach"
  | has => "has"
  | keys => "keys"
  | size => "size"
  | toJSON => "toJSON"
  | toString => "toString"
  | values => "values"

/-- The property of a name. -/
def ofName? (name : String) : Option SetFunction := all.find? (·.name == name)

/-- The name the callable itself goes by: `keys` is the callable of `values`. -/
def callableName : SetFunction → String
  | keys => "values"
  | f => f.name

end SetFunction

/-- The properties of wrapped primitives. -/
inductive WrapperFunction where
  | toJSON
  | valueOf
  deriving DecidableEq

namespace WrapperFunction

/-- All properties of wrapped primitives, in alphabetical order. -/
def all : List WrapperFunction := [toJSON, valueOf]

/-- The name of a property. -/
def name : WrapperFunction → String
  | toJSON => "toJSON"
  | valueOf => "valueOf"

/-- The property of a name. -/
def ofName? (name : String) : Option WrapperFunction := all.find? (·.name == name)

end WrapperFunction

/-- A property of any of the three. -/
inductive Function where
  | ofList (f : ListFunction)
  | ofSet (f : SetFunction)
  | ofWrapper (f : WrapperFunction)
  deriving DecidableEq

/-- The name of the callable a property gives. -/
def Function.callableName : Function → String
  | .ofList f => f.name
  | .ofSet f => f.callableName
  | .ofWrapper f => f.name

/-- The property of a name that values of a shape have. Plain values have some only as wrapped
primitives; maps and arrays have none. -/
def find? (shape : Host.Shape) (primitive : Option Host.Primitive) (name : String) :
    Option Function :=
  match shape with
  | .list => (ListFunction.ofName? name).map .ofList
  | .set => (SetFunction.ofName? name).map .ofSet
  | .plain => primitive.bind fun _ => (WrapperFunction.ofName? name).map .ofWrapper
  | .map | .array => none

end Membrane.Prototype
