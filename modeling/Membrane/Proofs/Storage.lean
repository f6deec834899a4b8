import Membrane.Host.Storage
import Mathlib.Tactic.Common

/-!
# Reading what was stored

What a change of storage does to what is read afterwards: the object that is changed reads as
changed, and a world reads as before if nothing was changed after all. Everything else a world holds
is as it was.

## Main results

* `World.list?_eq_some_iff`, `World.set?_eq_some_iff`, `World.map?_eq_some_iff`,
  `World.array?_eq_some_iff`, `World.classRef?_eq_some_iff`: the views of storage.
* `World.data?_changeData`, `World.data?_changeData_of_ne`: the changed object, and the others.
* `World.class?_changeData`: classes do not change.
* `World.changeData_congr`, `World.changeData_eq_self`: when changes are the same, or none.
* `World.rest_changeData`: nothing but host objects changes.
-/

namespace Membrane

open Host (Data Value)

namespace World

variable {w w' : World} {v : Value} {data : Data}

/-! ### Views -/

theorem list?_eq_some_iff {items : Array Value} :
    w.list? v = some items ↔ w.data? v = some (.list items) := by
  unfold list?
  split
  · next h => simp [h]
  · next h => exact iff_of_false nofun (h items)

theorem set?_eq_some_iff {members : List Value} :
    w.set? v = some members ↔ w.data? v = some (.set members) := by
  unfold set?
  split
  · next h => simp [h]
  · next h => exact iff_of_false nofun (h members)

theorem map?_eq_some_iff {entries : Dictionary Value Value} :
    w.map? v = some entries ↔ w.data? v = some (.map entries) := by
  unfold map?
  split
  · next h => simp [h]
  · next h => exact iff_of_false nofun (h entries)

theorem array?_eq_some_iff {items : Array Value} :
    w.array? v = some items ↔ w.data? v = some (.array items) := by
  unfold array?
  split
  · next h => simp [h]
  · next h => exact iff_of_false nofun (h items)

theorem classRef?_eq_some_iff {c : Host.Class} :
    w.classRef? v = some c ↔ w.data? v = some (.classRef c) := by
  unfold classRef?
  split
  · next h => simp [h]
  · next h => exact iff_of_false nofun (h c)

/-- Only a reference to an object has storage. -/
theorem exists_object_of_data? (h : w.data? v = some data) :
    ∃ r o, v = .object r ∧ w.objects.get? r = some o ∧ o.data = data := by
  unfold data? object? at h
  cases v with
  | object r =>
    obtain ⟨o, ho, rfl⟩ := Option.map_eq_some_iff.1 h
    exact ⟨r, o, rfl, ho, rfl⟩
  | _ => cases h

/-- Storage is read from the host objects. -/
theorem data?_congr (h : w'.objects = w.objects) : w'.data? v = w.data? v := by
  unfold data? object?
  rw [h]

theorem list?_congr (h : w'.objects = w.objects) : w'.list? v = w.list? v := by
  unfold list?
  rw [data?_congr h]

/-! ### Changes -/

theorem data?_changeData (w : World) (v : Value) (change : Data → Data) :
    (w.changeData v change).data? v = (w.data? v).map change := by
  cases v with
  | object r =>
    simp only [data?, object?, changeData, Value.object?, Option.bind_some,
      Store.get?_modify_self, Option.map_map]
    rfl
  | _ => rfl

/-- The storage of other objects is as it was. -/
theorem data?_changeData_of_ne (w : World) {u : Value} (h : u ≠ v) (change : Data → Data) :
    (w.changeData v change).data? u = w.data? u := by
  cases v with
  | object r =>
    cases u with
    | object r' =>
      have hr : r ≠ r' := fun heq => h (heq ▸ rfl)
      simp only [data?, object?, changeData, Value.object?, Option.bind_some,
        Store.get?_modify_of_ne _ _ hr]
    | _ => rfl
  | _ => rfl

/-- A change of storage changes no class. -/
theorem class?_changeData (w : World) (v u : Value) (change : Data → Data) :
    (w.changeData v change).class? u = w.class? u := by
  cases v with
  | object r =>
    cases u with
    | object r' =>
      simp only [class?, changeData]
      by_cases hr : r = r'
      · subst hr
        rw [Store.get?_modify_self, Option.map_map]
        rfl
      · rw [Store.get?_modify_of_ne _ _ hr]
    | _ => rfl
  | _ => rfl

/-- A change of storage changes nothing but host objects. -/
theorem rest_changeData (w : World) (v : Value) (change : Data → Data) :
    w.changeData v change = { w with objects := (w.changeData v change).objects } := by
  cases v <;> rfl

/-- Nor does a write of a field. -/
theorem rest_setField (w : World) (v : Value) (name : String) (value : Value) :
    (w.setField v name value).2 = { w with objects := (w.setField v name value).2.objects } := by
  unfold setField
  split
  · split <;> rfl
  · rfl

/-- Only the storage an object has matters to a change. -/
theorem changeData_congr {change change' : Data → Data} (h : w.data? v = some data)
    (hchange : change data = change' data) : w.changeData v change = w.changeData v change' := by
  obtain ⟨r, o, rfl, ho, rfl⟩ := exists_object_of_data? h
  refine congrArg (fun objects => { w with objects := objects }) (Store.modify_congr ho ?_)
  rw [hchange]

/-- To put the storage an object has already changes nothing. -/
theorem changeData_eq_self {change : Data → Data} (h : w.data? v = some data)
    (hchange : change data = data) : w.changeData v change = w := by
  have hid : w.changeData v change = w.changeData v id := changeData_congr h hchange
  rw [hid]
  obtain ⟨r, o, rfl, -, -⟩ := exists_object_of_data? h
  exact congrArg (fun objects => { w with objects := objects }) (Store.modify_id w.objects r)

section Views

variable {items : Array Value} {members : List Value} {entries : Dictionary Value Value}

theorem array?_changeItems (h : w.array? v = some items)
    (change : Array Value → Array Value) :
    (w.changeItems v change).array? v = some (change items) := by
  rw [array?_eq_some_iff] at h ⊢
  rw [changeItems, data?_changeData, h]
  rfl

theorem set?_changeMembers (h : w.set? v = some members) (change : List Value → List Value) :
    (w.changeMembers v change).set? v = some (change members) := by
  rw [set?_eq_some_iff] at h ⊢
  rw [changeMembers, data?_changeData, h]
  rfl

theorem map?_changeEntries (h : w.map? v = some entries)
    (change : Dictionary Value Value → Dictionary Value Value) :
    (w.changeEntries v change).map? v = some (change entries) := by
  rw [map?_eq_some_iff] at h ⊢
  rw [changeEntries, data?_changeData, h]
  rfl

/-- An object becomes a list of the items that are written to it. -/
theorem list?_putData_of_data? (h : w.data? v = some data) (items : Array Value) :
    (w.putData v (.list items)).list? v = some items := by
  rw [list?_eq_some_iff, putData, data?_changeData, h]
  rfl

/-- A list holds the items last written to it. -/
theorem list?_putData (h : w.list? v = some items) (items' : Array Value) :
    (w.putData v (.list items')).list? v = some items' :=
  list?_putData_of_data? (list?_eq_some_iff.1 h) items'

/-- To change the items of a list is to replace its storage. -/
theorem changeItems_eq_putData (h : w.list? v = some items)
    (change : Array Value → Array Value) :
    w.changeItems v change = w.putData v (.list (change items)) :=
  changeData_congr (list?_eq_some_iff.1 h) rfl

/-- A set has the members last written to it. -/
theorem set?_putData (h : w.set? v = some members) (members' : List Value) :
    (w.putData v (.set members')).set? v = some members' := by
  rw [set?_eq_some_iff, putData, data?_changeData, set?_eq_some_iff.1 h]
  rfl

/-- To change the members of a set is to replace its storage. -/
theorem changeMembers_eq_putData (h : w.set? v = some members)
    (change : List Value → List Value) :
    w.changeMembers v change = w.putData v (.set (change members)) :=
  changeData_congr (set?_eq_some_iff.1 h) rfl

end Views

end World

end Membrane
