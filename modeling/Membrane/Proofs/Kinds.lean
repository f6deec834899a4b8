import Membrane.Proofs.Crossing

/-!
# Kinds of storage

A host object is given storage of some kind when it is made: fields alone, a list, a set, a map, an
array, or a reference to a class. Whatever is done to the object later, the kind stays, since every
change of storage is one of lists to lists, of sets to sets, and so on.

## Main definitions

* `Host.Data.Kind`, `Host.Data.kind`: the kinds of storage.
* `World.KeepsKinds`: that the objects of a world keep their class and the kind of their storage.

## Main results

* `World.keepsKinds_modify`: changes of objects that keep the kind of their storage.
* `World.KeepsKinds.list?_isSome`, `World.KeepsKinds.set?_isSome`: lists and sets stay what they
  are.
-/

namespace Membrane

open Host (Data Object Shape Value)

namespace Host.Data

/-- The kinds of storage: that of a shape, or a reference to a class. -/
inductive Kind where
  /-- The storage of the instances of a shape. -/
  | ofShape (s : Shape)
  /-- A reference to a class. -/
  | reference (c : Class)
  deriving DecidableEq

/-- The kind of some storage. -/
def kind : Data → Kind
  | plain => .ofShape .plain
  | list _ => .ofShape .list
  | set _ => .ofShape .set
  | map _ => .ofShape .map
  | array _ => .ofShape .array
  | classRef c => .reference c

@[simp] theorem kind_empty (s : Shape) : (empty s).kind = .ofShape s := by
  cases s <;> rfl

theorem kind_changeItems (change : Array Value → Array Value) (data : Data) :
    (data.changeItems change).kind = data.kind := by
  cases data <;> rfl

theorem kind_changeMembers (change : List Value → List Value) (data : Data) :
    (data.changeMembers change).kind = data.kind := by
  cases data <;> rfl

theorem kind_changeEntries (change : Dictionary Value Value → Dictionary Value Value)
    (data : Data) : (data.changeEntries change).kind = data.kind := by
  cases data <;> rfl

theorem kind_eq_list_iff {data : Data} :
    data.kind = .ofShape .list ↔ ∃ items, data = .list items := by
  cases data <;> simp [kind]

theorem kind_eq_set_iff {data : Data} :
    data.kind = .ofShape .set ↔ ∃ members, data = .set members := by
  cases data <;> simp [kind]

end Host.Data

/-- The objects there were still are there, of the same class and with storage of the same kind. -/
def World.KeepsKinds (w w' : World) : Prop :=
  ∀ r o, w.objects.get? r = some o →
    ∃ o', w'.objects.get? r = some o' ∧ o'.cls = o.cls ∧ o'.data.kind = o.data.kind

instance : IsPreorder World World.KeepsKinds where
  refl _ := fun _ o ho => ⟨o, ho, rfl, rfl⟩
  trans _ _ _ h h' := fun r o ho => by
    obtain ⟨o₁, ho₁, hcls, hkind⟩ := h r o ho
    obtain ⟨o₂, ho₂, hcls', hkind'⟩ := h' r o₁ ho₁
    exact ⟨o₂, ho₂, hcls'.trans hcls, hkind'.trans hkind⟩

namespace World

variable {w w' : World}

theorem KeepsKinds.of_objects_eq (h : w'.objects = w.objects) : w.KeepsKinds w' := by
  intro r o ho
  exact ⟨o, by rwa [h], rfl, rfl⟩

/-- An object may be changed as long as its class and the kind of its storage stay. -/
theorem keepsKinds_modify {r : Ref .object} {change : Object → Object}
    (h : ∀ o, w.objects.get? r = some o →
      (change o).cls = o.cls ∧ (change o).data.kind = o.data.kind) :
    w.KeepsKinds { w with objects := w.objects.modify r change } := by
  intro r' o ho
  by_cases hr : r = r'
  · subst hr
    have hchanged : (w.objects.modify r change).get? r = some (change o) := by
      rw [Store.get?_modify_self, ho, Option.map_some]
    exact ⟨change o, hchanged, h o ho⟩
  · exact ⟨o, (Store.get?_modify_of_ne _ _ hr).trans ho, rfl, rfl⟩

/-! ### What stays -/

variable (h : w.KeepsKinds w') {v : Value}
include h

theorem KeepsKinds.data? {data : Data} (hdata : w.data? v = some data) :
    ∃ data', w'.data? v = some data' ∧ data'.kind = data.kind := by
  obtain ⟨r, o, rfl, ho, rfl⟩ := exists_object_of_data? hdata
  obtain ⟨o', ho', -, hkind⟩ := h r o ho
  exact ⟨o'.data, by simp [World.data?, object?, Value.object?, ho'], hkind⟩

/-- A list stays a list. -/
theorem KeepsKinds.list?_isSome (hlist : (w.list? v).isSome) : (w'.list? v).isSome := by
  obtain ⟨items, hitems⟩ := Option.isSome_iff_exists.1 hlist
  obtain ⟨data', hdata', hkind⟩ := h.data? (list?_eq_some_iff.1 hitems)
  obtain ⟨items', rfl⟩ := Data.kind_eq_list_iff.1 hkind
  exact Option.isSome_of_eq_some (list?_eq_some_iff.2 hdata')

/-- A set stays a set. -/
theorem KeepsKinds.set?_isSome (hset : (w.set? v).isSome) : (w'.set? v).isSome := by
  obtain ⟨members, hmembers⟩ := Option.isSome_iff_exists.1 hset
  obtain ⟨data', hdata', hkind⟩ := h.data? (set?_eq_some_iff.1 hmembers)
  obtain ⟨members', rfl⟩ := Data.kind_eq_set_iff.1 hkind
  exact Option.isSome_of_eq_some (set?_eq_some_iff.2 hdata')

end World

end Membrane
