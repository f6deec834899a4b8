import Membrane.Host.Operations
import Membrane.Proofs.Kinds

/-!
# What the built-in operations are made of

The operations of the built-in classes write values as text, read and change the storage of host
objects and raise faults, and they do nothing else. So whatever holds of these parts, and of
computations composed of computations of which it holds, holds of every operation.

## Main definitions

* `Host.HoldsOfParts`: a property of computations that holds of the parts of operations.

## Main results

* `Host.HoldsOfParts.run`: such a property holds of the operations.
* `Host.BuiltIn.within_run`: a relation of worlds that the operations keep.
-/

namespace Membrane.Host

open Run

/-- A property of computations that holds of the parts of the built-in operations and of what is
composed of parts. -/
structure HoldsOfParts (P : ∀ α : Type, Run α → Prop) : Prop extends Run.HoldsOfParts P where
  /-- Raising a fault that is not internal. -/
  raise {α : Type} {f : Fault} (hf : f.kind ≠ .internal) : P α (Run.raise f)
  /-- Not ending. -/
  exhausted {α : Type} : P α (throw .exhausted)
  /-- Changing the storage of an object to storage of the same kind. -/
  change (v : Value) {f : Data → Data} (hf : ∀ data, (f data).kind = data.kind) :
    P PUnit (modify (·.changeData v f))

namespace HoldsOfParts

variable {P : ∀ α : Type, Run α → Prop} (hP : HoldsOfParts P)
include hP

theorem wrongReceiver {α : Type} (receiver : Value) (expected : String) :
    P α (Host.wrongReceiver receiver expected) :=
  hP.raiseAbout hP.exhausted (fun s => hP.raise (f := .wrongReceiver s expected) nofun) receiver []

theorem listOf (receiver : Value) : P _ (Host.listOf receiver) := by
  refine hP.look (fun w => ?_) fun w w' h => by simp only [World.list?, h.data]
  split
  · exact hP.pure _
  · exact hP.wrongReceiver _ _

theorem setOf (receiver : Value) : P _ (Host.setOf receiver) := by
  refine hP.look (fun w => ?_) fun w w' h => by simp only [World.set?, h.data]
  split
  · exact hP.pure _
  · exact hP.wrongReceiver _ _

theorem mapOf (receiver : Value) : P _ (Host.mapOf receiver) := by
  refine hP.look (fun w => ?_) fun w w' h => by simp only [World.map?, h.data]
  split
  · exact hP.pure _
  · exact hP.wrongReceiver _ _

theorem indexBelow (v : Value) (length : Nat) (locked : List (Ref .object)) :
    P _ (Host.indexBelow v length locked) := by
  unfold Host.indexBelow
  split
  · exact hP.pure _
  · exact hP.raiseAbout hP.exhausted (fun s => hP.raise (f := .indexOutOfBounds s length) nofun) v
      locked

/-- What holds of the parts of the built-in operations holds of the operations. -/
theorem run (b : BuiltIn) (hasher : Hasher) (receiver : Value) (args : List Value) :
    P _ (b.run hasher receiver args) := by
  cases b with
  | text => exact hP.bind (hP.hostText hP.exhausted receiver []) fun _ => hP.pure _
  | hashCode | equals => exact hP.pure _
  | className =>
    refine hP.look (fun w => ?_) fun w w' h => by simp only [World.classRef?, h.data]
    split
    · exact hP.pure _
    · exact hP.wrongReceiver _ _
  | listGet =>
    exact hP.bind (hP.listOf receiver) fun _ => hP.bind (hP.indexBelow _ _ _) fun _ => hP.pure _
  | listInsert | listSet | listRemove =>
    exact hP.bind (hP.listOf receiver) fun _ => hP.bind (hP.indexBelow _ _ _) fun _ =>
      hP.bind (hP.change receiver (Data.kind_changeItems _)) fun _ => hP.pure _
  | listAdd | listClear =>
    exact hP.bind (hP.listOf receiver) fun _ =>
      hP.bind (hP.change receiver (Data.kind_changeItems _)) fun _ => hP.pure _
  | listSize | listIsEmpty | listContains =>
    exact hP.bind (hP.listOf receiver) fun _ => hP.pure _
  | listIndexOf =>
    refine hP.bind (hP.listOf receiver) fun items => ?_
    split
    · exact hP.pure _
    · exact hP.pure _
  | setAdd | setRemove | setClear =>
    exact hP.bind (hP.setOf receiver) fun _ =>
      hP.bind (hP.change receiver (Data.kind_changeMembers _)) fun _ => hP.pure _
  | setContains | setSize | setIsEmpty => exact hP.bind (hP.setOf receiver) fun _ => hP.pure _
  | mapPut | mapRemove | mapClear =>
    exact hP.bind (hP.mapOf receiver) fun _ =>
      hP.bind (hP.change receiver (Data.kind_changeEntries _)) fun _ => hP.pure _
  | mapGet | mapContainsKey | mapSize | mapIsEmpty =>
    exact hP.bind (hP.mapOf receiver) fun _ => hP.pure _

end HoldsOfParts

/-- The operations of the built-in classes do nothing to a world but change what a host object
holds. -/
theorem BuiltIn.within_run {R : World → World → Prop} [IsPreorder World R]
    (hchange : ∀ (w : World) (v : Value) (change : Data → Data),
      (∀ data, (change data).kind = data.kind) → R w (w.changeData v change))
    (b : BuiltIn) (hasher : Hasher) (receiver : Value) (args : List Value) :
    (b.run hasher receiver args).Within R :=
  HoldsOfParts.run (P := fun _ x => x.Within R)
    { Run.Within.holdsOfParts with
      raise := fun _ => .raise _
      exhausted := .throw _
      change := fun v {f} hf w => hchange w v f hf } b hasher receiver args

end Membrane.Host
