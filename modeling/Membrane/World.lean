import Membrane.Data.Dictionary
import Membrane.Descriptor
import Membrane.Fault

/-!
# The world

All state of host and script: the cells of host objects, arrays, plain objects, callables, handlers
and iterators, the static fields of classes, the descriptors built so far, what is held from outside
the cells, and the ledger of calls and releases. A computation starts in a world and ends in one,
whether it gives a result, raises a fault or is cut off.

Callables are data. A native one is a code of the embedder with the values it captured; all others
name what they do and for whom.

Source: specification, sections 2 and 3; section 5 for the ledger of releases.

## Main definitions

* `Host.Data`, `Host.Object`: host objects and their storage. `Data.changeItems`,
  `Data.changeMembers` and `Data.changeEntries` change storage of their own kind and no other.
* `Callable`, `Trap`, `IterationKind`, `IteratorItem`, `Handler`, `Ledger`.
* `World`, `Halt`, `Run`.
* `Run.hold`, `Run.scope`: what a computation holds while it is under way.
-/

namespace Membrane

namespace Host

/-- The storage of a host object. -/
inductive Data where
  /-- Fields only. -/
  | plain
  /-- A sequence. -/
  | list (items : Array Value)
  /-- Members in order of insertion. -/
  | set (members : List Value)
  /-- Entries in order of insertion. -/
  | map (entries : Dictionary Value Value)
  /-- A sequence of fixed length. -/
  | array (items : Array Value)
  /-- A reference to a class. -/
  | classRef (c : Class)
  deriving DecidableEq

/-- Changes the items of a sequence. -/
def Data.changeItems (change : Array Value → Array Value) : Data → Data
  | .list items => .list (change items)
  | .array items => .array (change items)
  | data => data

/-- Changes the members of a set. -/
def Data.changeMembers (change : List Value → List Value) : Data → Data
  | .set members => .set (change members)
  | data => data

/-- Changes the entries of a map. -/
def Data.changeEntries (change : Dictionary Value Value → Dictionary Value Value) : Data → Data
  | .map entries => .map (change entries)
  | data => data

/-- A host object. -/
structure Object where
  /-- The class it is an instance of. -/
  cls : Class
  /-- Its storage. -/
  data : Data
  /-- Its field slots, in order of discovery. -/
  fields : Dictionary String Value
  deriving DecidableEq

namespace Object

/-- A fresh object: every slot of its class holds null. -/
def new (c : Class) (data : Data) : Object :=
  ⟨c, data, c.slotNames.foldl (fun d n => d.putNew n .null) []⟩

/-- A field slot. -/
def field? (o : Object) (name : String) : Option Value := o.fields.get? name

/-- The number of elements of a collection. -/
def size? (o : Object) : Option Nat :=
  match o.data with
  | .list items | .array items => some items.size
  | .set members => some members.length
  | .map entries => some entries.length
  | .plain | .classRef _ => none

end Object

end Host

/-- The five operations a script engine asks of a proxy's handler. -/
inductive Trap where
  | get
  | deleteProperty
  | has
  | ownKeys
  | set
  deriving DecidableEq

namespace Trap

/-- The traps in the order in which their callables are made. -/
def all : List Trap := [get, deleteProperty, has, ownKeys, set]

/-- The name of a trap. -/
def name : Trap → String
  | get => "get"
  | deleteProperty => "deleteProperty"
  | has => "has"
  | ownKeys => "ownKeys"
  | set => "set"

end Trap

/-- What an iterator gives. -/
inductive IterationKind where
  /-- Indices, map keys or set members. -/
  | keys
  /-- Elements, map values or set members. -/
  | values
  /-- Pairs of the two. -/
  | entries
  deriving DecidableEq

/-- One result of an iterator, before it is carried to the script. -/
inductive IteratorItem where
  | value (v : Host.Value)
  | pair (key value : Host.Value)
  deriving DecidableEq

/-- What a callable does. -/
inductive Callable where
  /-- Code of the embedder, with the name scripts see and the values it captured. -/
  | native (name : String) (code : Nat) (captured : List Script.Value)
  /-- A prototype function bound to a target. -/
  | prototype (f : Prototype.Function) (target : Host.Value)
  /-- The methods of one name, called on a receiver. -/
  | methods (group : Descriptor.MethodGroup) (receiver : Host.Value)
  /-- The step of an iterator. -/
  | next (state : Ref .iterator)
  /-- Gives its receiver. -/
  | itself
  /-- Makes an iterator over a target. -/
  | iterate (target : Host.Value) (kind : IterationKind)
  /-- Gives the primitive value of a target. -/
  | toPrimitive (target : Host.Value)
  /-- A trap of a handler. -/
  | trap (handler : Ref .handler) (t : Trap)
  deriving DecidableEq

namespace Callable

/-- The name scripts see. -/
def name : Callable → String
  | native name _ _ => name
  | prototype f _ => f.callableName
  | methods group _ => group.name
  | next _ => "next"
  | itself | iterate _ _ => "[Symbol.iterator]"
  | toPrimitive _ => "[Symbol.toPrimitive]"
  | trap _ t => t.name

end Callable

/-- The handler of a proxy. -/
structure Handler where
  /-- The proxied value. -/
  target : Host.Value
  /-- What scripts can reach on it. -/
  descriptor : Descriptor
  /-- The keys captured when they were first asked for. -/
  uniqueKeys : Option (List String)
  /-- The trap callables, once made. -/
  traps : Option (List (Trap × Ref .function))
  deriving DecidableEq

/-- A call of a script value. -/
structure Call where
  /-- The value that was called. -/
  callee : Script.Value
  /-- The receiver. -/
  this : Script.Value
  /-- The arguments. -/
  args : List Script.Value
  deriving DecidableEq

/-- The calls made and the values released, latest first. -/
structure Ledger where
  /-- The calls. -/
  calls : List Call := []
  /-- The released values. -/
  released : List Script.Value := []

/-- All state of host and script. -/
structure World where
  /-- The host objects. -/
  objects : Store .object Host.Object := {}
  /-- The script arrays. -/
  arrays : Store .array (List Script.Value) := {}
  /-- The plain script objects. -/
  records : Store .record (Dictionary Script.Key Script.Value) := {}
  /-- The callables. -/
  functions : Store .function Callable := {}
  /-- The proxy handlers. -/
  handlers : Store .handler Handler := {}
  /-- What the iterators have left to give. -/
  iterators : Store .iterator (List IteratorItem) := {}
  /-- The static fields that have a value. -/
  statics : Dictionary (Host.Class × String) Host.Value := []
  /-- The descriptors built so far, latest first. -/
  descriptors : List Descriptor := []
  /-- The identity of the next symbol. -/
  nextSymbol : Nat := Script.Symbol.firstFresh
  /-- The things held by the embedder and by the computations under way, latest first. -/
  held : List Node := []
  /-- The number that stands for the address of the first host object. -/
  firstAddress : Nat := 0x7F0000000000
  /-- The calls and releases. -/
  ledger : Ledger := {}

instance : Inhabited World := ⟨{}⟩

/-- Why a computation ended without a result. -/
inductive Halt where
  /-- It raised a fault. -/
  | fault (f : Fault)
  /-- It was cut off after the steps it was given, or it would not have ended: it needs a text or a
  copy that is infinite, or it waits for a lock of its own. -/
  | exhausted
  deriving DecidableEq

/-- A computation in a world. The world reached is kept when it ends without a result. -/
abbrev Run (α : Type) := EStateM Halt World α

namespace Run

/-- Ends with a fault. -/
def raise {α : Type} (f : Fault) : Run α := throw (.fault f)

/-- The value of an option, or a fault in its place. -/
def orRaise {α : Type} (o : Option α) (f : Fault) : Run α :=
  match o with
  | some a => pure a
  | none => raise f

/-- The value of an option, or no result at all. -/
def orExhausted {α : Type} (o : Option α) : Run α :=
  match o with
  | some a => pure a
  | none => throw .exhausted

/-- Runs a computation, and another one where the first ends without a result. -/
@[inline] def onHalt {α : Type} (x : Run α) (cleanup : Run Unit) : Run α := fun w =>
  match x w with
  | .ok a w' => .ok a w'
  | .error e w' =>
    match cleanup w' with
    | .ok _ w'' => .error e w''
    | .error _ w'' => .error e w''

/-- Holds things until the end of the innermost scope. -/
def hold (nodes : List Node) : Run Unit := modify fun w => { w with held := nodes ++ w.held }

/-- Holds what a script value refers to. -/
def holdScript (v : Script.Value) : Run Unit := hold v.node?.toList

/-- Holds what a host value refers to. -/
def holdHost (v : Host.Value) : Run Unit := hold v.node?.toList

/-- The outcome of a computation with what is held in the world reached replaced. -/
def holdOnly {α : Type} (held : List Node) :
    EStateM.Result Halt World α → EStateM.Result Halt World α
  | .ok a w => .ok a { w with held := held }
  | .error e w => .error e { w with held := held }

/-- Runs a computation as a scope: at its end it lets go of what it has come to hold. -/
def scope {α : Type} (x : Run α) : Run α := fun w => holdOnly w.held (x w)

end Run

end Membrane
