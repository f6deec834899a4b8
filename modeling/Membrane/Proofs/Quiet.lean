import Membrane.Proofs.Deeds
import Membrane.Proofs.Parts
import Membrane.Proofs.Storage
import Membrane.Proofs.Texts
import Membrane.Prototype.SetFunction
import Membrane.Prototype.Walk

/-!
# Computations without deeds

Carrying host values to the script, making script arrays and holding things is quiet: the ledger and
the host objects stay as they are, and it comes to an end. Reading arguments and lists leaves the
world as it is. Where an argument or a list is not what it has to be it raises a fault that quotes
it, so it comes to an end if that has a text.

## Main results

* `Engine.quiet_toScript`, `Engine.quiet_toScriptArray`: carrying values to the script.
* `looks_listItems`, `looks_elementAt`, `looks_setMembers`: reading collections.
* `Arguments.looks_callback`: reading arguments.
* `elementAt_eq_none`, `elementAt_eq_some`: an element is there exactly below the length.
-/

namespace Membrane

open Host (Value)

namespace Run

theorem quiet_hold (nodes : List Node) : (Run.hold nodes).Quiet :=
  .of_modify fun w => (World.Alike.refl w).hold _

theorem quiet_holdScript (v : Script.Value) : (Run.holdScript v).Quiet := quiet_hold _

theorem quiet_holdHost (v : Value) : (Run.holdHost v).Quiet := quiet_hold _

theorem quiet_newScriptArray (items : List Script.Value) : (Run.newScriptArray items).Quiet :=
  ⟨fun _ => ⟨rfl, rfl, rfl⟩, nofun⟩

theorem Looks.holdsOfParts : HoldsOfParts fun _ x => x.Looks where
  pure := .pure
  bind := .bind
  look hf _ := .bind .get hf

theorem Looks.hostText (v : Value) (locked : List (Ref .object)) : (Run.hostText v locked).Looks :=
  holdsOfParts.hostText (fun _ => rfl) v locked

theorem quiet_holdsOfParts : HoldsOfParts fun _ x => x.Quiet where
  pure := .pure
  bind := .bind
  look hf _ := .bind .get hf

end Run

namespace Engine

variable (eng : Engine)

/-- A descriptor is found or built, and then kept. -/
theorem describe_eq_ok (c : Host.Class) (isStatic : Bool) (w : World) :
    ∃ d ds, eng.describe c isStatic w = .ok d { w with descriptors := ds } := by
  unfold describe
  rw [Run.get_bind]
  cases w.descriptors.find? fun d => d.isStatic == isStatic && decide (d.target = c) with
  | none => exact ⟨_, _, rfl⟩
  | some d => exact ⟨d, w.descriptors, rfl⟩

theorem quiet_describe (c : Host.Class) (isStatic : Bool) : (eng.describe c isStatic).Quiet := by
  constructor
  · intro w
    obtain ⟨d, ds, h⟩ := eng.describe_eq_ok c isStatic w
    rw [h]
    exact ⟨rfl, rfl, rfl⟩
  · intro w w' h
    obtain ⟨d, ds, h'⟩ := eng.describe_eq_ok c isStatic w
    rw [h] at h'
    cases h'

/-- An object shows a class. One that has none is not there, and has a text for the fault. -/
theorem descriptorOf_object (r : Ref .object) (w : World) :
    (∃ c isStatic, eng.descriptorOf (.object r) w = eng.describe c isStatic w) ∨
      ∃ f, eng.descriptorOf (.object r) w = .error (.fault f) w := by
  unfold descriptorOf
  rw [Run.get_bind]
  cases w.classRef? (.object r) with
  | some c => exact .inl ⟨c, true, rfl⟩
  | none =>
    cases hclass : w.class? (.object r) with
    | some c => exact .inl ⟨c, false, rfl⟩
    | none =>
      have htext := World.hasText_of_missing (Option.map_eq_none_iff.1 hclass)
      exact .inr ⟨_, congrArg (EStateM.Result.error · w) (htext.haltAbout .indescribable)⟩

theorem quiet_descriptorOf (r : Ref .object) : (eng.descriptorOf (.object r)).Quiet := by
  constructor
  · intro w
    obtain ⟨c, isStatic, h⟩ | ⟨f, h⟩ := eng.descriptorOf_object r w <;> rw [h]
    · exact (eng.quiet_describe c isStatic).alike w
    · exact .refl w
  · intro w w' hexh
    obtain ⟨c, isStatic, h⟩ | ⟨f, h⟩ := eng.descriptorOf_object r w <;> rw [h] at hexh
    · exact (eng.quiet_describe c isStatic).ends w w' hexh
    · cases hexh

theorem quiet_newHandler (r : Ref .object) : (eng.newHandler (.object r)).Quiet :=
  .bind (eng.quiet_descriptorOf r) fun _ => ⟨fun _ => ⟨rfl, rfl, rfl⟩, nofun⟩

theorem quiet_toScript (v : Value) : (eng.toScript v).Quiet := by
  refine .bind .get fun w => ?_
  split
  · exact .raise _
  · exact Run.quiet_holdsOfParts.carryToScript eng.quiet_newHandler v

theorem quiet_toScriptAll (vs : List Value) : (eng.toScriptAll vs).Quiet :=
  Run.quiet_holdsOfParts.mapM eng.quiet_toScript vs

theorem quiet_toScriptArray (vs : List Value) : (eng.toScriptArray vs).Quiet :=
  .bind (eng.quiet_toScriptAll vs) fun _ => Run.quiet_newScriptArray _

end Engine

/-! ### Arguments and collections -/

theorem Arguments.looks_callback (args : List Script.Value) (i : Nat) :
    (Arguments.callback args i).Looks := by
  unfold Arguments.callback
  dsimp only
  split
  · exact .pure _
  · exact .raiseAbout _ _ _

theorem looks_listItems (target : Value) : (listItems target).Looks := by
  refine .bind .get fun w => ?_
  split
  · exact .pure _
  · exact .raiseAbout _ _ _

theorem looks_elementAt (target : Value) (i : Nat) : (elementAt target i).Looks :=
  .bind (looks_listItems target) fun _ => .pure _

theorem looks_setMembers (target : Value) : (setMembers target).Looks := by
  refine .bind .get fun w => ?_
  split
  · exact .pure _
  · exact .raiseAbout _ _ _

/-- The number of elements of a list; zero if the value is no list. -/
def World.listLength (w : World) (target : Value) : Nat := ((w.list? target).map Array.size).getD 0

/-- The world with one list and nothing else. -/
def World.ofItems (items : List Value) : World :=
  { objects := ({} : Store .object Host.Object).alloc
      (.new Host.Library.list (.list items.toArray)) }

/-- The list of the world with one list. -/
def onlyList : Value := .object ⟨0⟩

/-- The length of a list is stored with the host objects. -/
theorem World.listLength_congr {w w' : World} (h : w'.objects = w.objects) (target : Value) :
    w'.listLength target = w.listLength target := by
  unfold World.listLength
  rw [World.list?_congr h]

/-- The members of a set are stored with the host objects. -/
theorem World.Alike.set? {w w' : World} (h : w.Alike w') (target : Value) :
    w'.set? target = w.set? target := by
  unfold World.set? World.data? World.object?
  rw [h.objects]

/-- A list is read as it is; of another target a fault tells. -/
theorem listItems_apply (target : Value) (w : World) :
    listItems target w = match w.list? target with
      | some items => .ok items w
      | none => .error (w.haltAbout target fun s => .wrongTarget s "List") w := by
  unfold listItems
  rw [Run.get_bind]
  cases w.list? target <;> rfl

theorem setMembers_eq_ok {target : Value} {members : List Value} {w w' : World}
    (h : setMembers target w = .ok members w') : w.set? target = some members := by
  unfold setMembers at h
  rw [Run.get_bind] at h
  cases hset : w.set? target with
  | none =>
    rw [hset] at h
    cases h
  | some members' =>
    rw [hset] at h
    cases h
    rfl

/-- An index holds an element just if it is below the length. -/
theorem elementAt_apply (target : Value) (i : Nat) (w : World) :
    elementAt target i w = match w.list? target with
      | some items => .ok items[i]? w
      | none => .error (w.haltAbout target fun s => .wrongTarget s "List") w := by
  unfold elementAt
  cases h : w.list? target with
  | none =>
    rw [Run.bind_of_error (by rw [listItems_apply, h])]
  | some items =>
    rw [Run.bind_of_ok (by rw [listItems_apply, h])]
    rfl

theorem elementAt_eq_error {target : Value} {i : Nat} {e : Halt} {w w' : World}
    (h : elementAt target i w = .error e w') : w.list? target = none := by
  rw [elementAt_apply] at h
  cases hlist : w.list? target with
  | none => rfl
  | some items =>
    rw [hlist] at h
    cases h

theorem elementAt_eq_none {target : Value} {i : Nat} {w w' : World}
    (h : elementAt target i w = .ok none w') : w' = w ∧ w.listLength target ≤ i := by
  rw [elementAt_apply] at h
  unfold World.listLength
  cases hlist : w.list? target with
  | none =>
    rw [hlist] at h
    cases h
  | some items =>
    rw [hlist] at h
    injection h with hi hw
    exact ⟨hw.symm, by simpa using hi⟩

theorem elementAt_eq_some {target v : Value} {i : Nat} {w w' : World}
    (h : elementAt target i w = .ok (some v) w') : w' = w ∧ i < w.listLength target := by
  rw [elementAt_apply] at h
  unfold World.listLength
  cases hlist : w.list? target with
  | none =>
    rw [hlist] at h
    cases h
  | some items =>
    rw [hlist] at h
    injection h with hi hw
    obtain ⟨hi, -⟩ := Array.getElem?_eq_some_iff.1 hi
    exact ⟨hw.symm, hi⟩

end Membrane
