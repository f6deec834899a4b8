import Membrane.World
import Std.Data.HashMap
import Std.Data.HashSet

/-!
# What is held

A thing lasts as long as something refers to it. References come from outside the cells, where the
embedder and the computations under way hold things, from static fields, and from other things that
last. When the last reference to a thing goes, the references it makes go with it, and the things
that only it referred to are let go as well. Things that refer to each other in a circle therefore
last, and so does all they refer to, even if nothing outside the circle leads there.

The callables of a handler's traps do not refer to their handler. They are the only way to notice
that a handler is gone.

Which things are let go follows from the references alone: as long as some thing is left without a
reference, take back the references it makes. No thing is taken twice, so there are no more steps
than things.

Source: specification, section 3, "ProxyHandler": what is shared lasts as long as its handles.

## Main definitions

* `World.references`: the references a thing makes.
* `World.tally`: how many references there are to each thing.
* `World.settle`: the references that are left when things without any have been let go.
* `World.holds`: whether a thing lasts.
-/

namespace Membrane

/-- The values in the storage of a host object. -/
def Host.Data.values : Host.Data → List Host.Value
  | .list items | .array items => items.toList
  | .set members => members
  | .map entries => entries.keys ++ entries.values
  | .plain | .classRef _ => []

/-- The first so many values in the storage of a host object. -/
def Host.Data.someValues (limit : Nat) : Host.Data → List Host.Value
  | .list items | .array items => (items.extract 0 limit).toList
  | .set members => members.take limit
  | .map entries => (entries.take limit).flatMap fun e => [e.1, e.2]
  | .plain | .classRef _ => []

/-- The values of an iterator's item. -/
def IteratorItem.values : IteratorItem → List Host.Value
  | .value v => [v]
  | .pair k v => [k, v]

/-- The references a callable makes. A trap makes none to its handler. -/
def Callable.references : Callable → List Node
  | .native _ _ captured => captured.filterMap Script.Value.node?
  | .prototype _ target | .methods _ target | .iterate target _ | .toPrimitive target =>
    target.node?.toList
  | .next state => [state.node]
  | .itself | .trap _ _ => []

/-- A number of references to each thing; none to a thing that is missing. -/
abbrev Tally := Std.HashMap Node Nat

namespace Tally

/-- The number of references to a thing. -/
def count (t : Tally) (n : Node) : Nat := t.getD n 0

/-- Counts one more reference to a thing. -/
def add (t : Tally) (n : Node) : Tally := t.insert n (t.count n + 1)

/-- Counts one reference less to a thing, and adds the thing to those to be let go if none is
left. -/
def remove (s : Tally × List Node) (n : Node) : Tally × List Node :=
  let left := s.1.count n - 1
  (s.1.insert n left, if left = 0 then n :: s.2 else s.2)

end Tally

namespace World

/-- The number of things of a kind. -/
def size (w : World) : Cell → Nat
  | .object => w.objects.size
  | .array => w.arrays.size
  | .record => w.records.size
  | .function => w.functions.size
  | .handler => w.handlers.size
  | .iterator => w.iterators.size

/-- All things. -/
def nodes (w : World) : List Node :=
  [Cell.object, .array, .record, .function, .handler, .iterator].flatMap fun kind =>
    (List.range (w.size kind)).map fun i => ⟨kind, i⟩

/-- The references a thing makes. -/
def references (w : World) (n : Node) : List Node :=
  match n.kind with
  | .object =>
    ((w.objects.get? ⟨n.index⟩).elim [] fun o => o.data.values ++ o.fields.values).filterMap
      Host.Value.node?
  | .array => ((w.arrays.get? ⟨n.index⟩).getD []).filterMap Script.Value.node?
  | .record => ((w.records.get? ⟨n.index⟩).getD []).values.filterMap Script.Value.node?
  | .function => (w.functions.get? ⟨n.index⟩).elim [] Callable.references
  | .handler => (w.handlers.get? ⟨n.index⟩).elim [] fun h => h.target.node?.toList
  | .iterator =>
    (((w.iterators.get? ⟨n.index⟩).getD []).flatMap IteratorItem.values).filterMap Host.Value.node?

/-- The references among the first so many values of a thing. -/
def someReferences (w : World) (limit : Nat) (n : Node) : List Node :=
  match n.kind with
  | .object =>
    ((w.objects.get? ⟨n.index⟩).elim [] fun o =>
      o.data.someValues limit ++ o.fields.values.take limit).filterMap Host.Value.node?
  | .array => (((w.arrays.get? ⟨n.index⟩).getD []).take limit).filterMap Script.Value.node?
  | .record =>
    (((w.records.get? ⟨n.index⟩).getD []).take limit).filterMap fun e => e.2.node?
  | .function | .handler => w.references n
  | .iterator => []

/-- The references that no thing makes: what is held, and what static fields refer to. -/
def roots (w : World) : List Node := w.held ++ w.statics.values.filterMap Host.Value.node?

/-- The number of references to each thing, whether or not the thing that makes them lasts. -/
def tally (w : World) : Tally :=
  w.nodes.foldl (fun t n => (w.references n).foldl Tally.add t) (w.roots.foldl Tally.add ∅)

/-- Lets go of things, one after the other, and of those that are left without a reference thereby.
The first argument bounds the number of things let go. -/
def letGo (w : World) : Nat → List Node → Tally → Tally
  | 0, _, t | _, [], t => t
  | steps + 1, n :: rest, t =>
    let (t, rest) := (w.references n).foldl Tally.remove (t, rest)
    w.letGo steps rest t

/-- The number of references to each thing that are left when the things without any have been let
go. -/
def settle (w : World) : Tally :=
  let t := w.tally
  w.letGo w.nodes.length (w.nodes.filter fun n => t.count n = 0) t

/-- Whether a thing is met on a walk from some others along references. The number of steps is
bounded, `seen` holds what the walk has been at, and from each thing it follows only so many
references. -/
def isMet (w : World) (n : Node) : Nat → Std.HashSet Node → List Node → Bool
  | 0, _, _ | _, _, [] => false
  | steps + 1, seen, m :: rest =>
    if m = n then true
    else if seen.contains m then w.isMet n steps seen rest
    else w.isMet n steps (seen.insert m) (w.someReferences 32 m ++ rest)

/-- Whether a thing is easily met from the roots, those held longest first. Such a thing lasts
without any counting. -/
def isEasilyMet (w : World) (n : Node) : Bool := w.isMet n 1000 ∅ w.roots.reverse

/-- Whether a thing lasts. -/
def holds (w : World) (n : Node) : Bool := w.isEasilyMet n || 0 < w.settle.count n

end World

end Membrane
