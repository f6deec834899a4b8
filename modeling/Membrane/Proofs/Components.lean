import Membrane.Proofs.Crossing
import Membrane.Proofs.Elements

/-!
# Arrays of a component type

An array is made of values of the kind of its component type: what does not fit is replaced by the
zero of that type. Elements are written as the component type holds them, and only arrays of objects
have elements deleted, which leaves null. So an array keeps its length and the kind of its elements,
whatever is written to it or deleted from it.

## Main definitions

* `Host.Component.holds`: the kind of values that arrays of a component type hold.
* `World.HoldsArray`: an array of a component type and a length.
* `World.KeepsArray`: what may happen to it.

## Main results

* `World.holdsArray_of_newArray`: a fresh array.
* `World.HoldsArray.elementWrite?_eq_some_iff`: which writes an array takes.
* `Run.keepsArray_setElement`, `Run.keepsArray_deleteProperty`: writing and deleting elements.
-/

namespace Membrane

open Host (Component Data Value)
open Host.Library (arrayOf)

namespace Host.Component

/-- Whether a value is of the kind that arrays of a component type hold. -/
def holds : Component → Value → Bool
  | boolean, .boolean _ | byte, .byte _ | char, .character _ | short, .short _ | int, .integer _
  | long, .long _ | float, .float _ | double, .double _ | object, _ => true
  | _, _ => false

theorem holds_zero (c : Component) : c.holds c.zero = true := by cases c <;> rfl

/-- Null is held by arrays of objects alone. -/
theorem holds_null (c : Component) : c.holds .null = !c.isPrimitive := by cases c <;> rfl

/-- What a value is coerced to is of the kind that the component type holds. -/
theorem holds_of_coerce? {c : Component} {v u : Value} (h : c.coerce? v = some u) :
    c.holds u = true := by
  cases c with
  | object => rfl
  | boolean =>
    cases v <;> cases h
    rfl
  | char =>
    cases v with
    | character x =>
      cases h
      rfl
    | string s =>
      obtain ⟨x, -, rfl⟩ := Option.map_eq_some_iff.1 h
      rfl
    | _ => cases h
  | _ =>
    obtain ⟨x, -, rfl⟩ := Option.map_eq_some_iff.1 h
    rfl

theorem holds_getD_coerce? (c : Component) (v : Value) :
    c.holds ((c.coerce? v).getD c.zero) = true := by
  cases h : c.coerce? v with
  | none => exact c.holds_zero
  | some u => exact holds_of_coerce? h

end Host.Component

/-- A value refers to an array of a component type and a length, and all its elements are of the
kind that the component type holds. -/
structure World.HoldsArray (w : World) (v : Value) (c : Component) (n : Nat) : Prop where
  /-- The class is that of arrays of the component type. -/
  cls : w.class? v = some (arrayOf c)
  /-- There are as many elements, and each is of the kind. -/
  typed : ∃ items, w.array? v = some items ∧ items.size = n ∧ ∀ x ∈ items, c.holds x = true

/-- An array of a component type and a length stays one. -/
def World.KeepsArray (v : Value) (c : Component) (n : Nat) (w w' : World) : Prop :=
  w.HoldsArray v c n → w'.HoldsArray v c n

instance (v : Value) (c : Component) (n : Nat) : IsPreorder World (World.KeepsArray v c n) where
  refl _ := id
  trans _ _ _ h h' harray := h' (h harray)

namespace World

variable {w w' : World} {v : Value} {c : Component} {n : Nat}

/-- A fresh array is of the component type it was made for, whatever it was to hold. -/
theorem holdsArray_of_newArray {items : List Value} (h : Run.newArray c items w = .ok v w') :
    w'.HoldsArray v c items.length := by
  cases h
  have hget := Store.get?_alloc_next w.objects (.new (arrayOf c)
    (.array (items.map fun v => (c.coerce? v).getD c.zero).toArray))
  refine ⟨by simp only [class?, hget, Option.map_some]; rfl, _,
    array?_eq_some_iff.2 (by
      simp only [data?, object?, Value.object?, Option.bind_some, hget]
      rfl),
    by simp, fun x hx => ?_⟩
  obtain ⟨u, -, rfl⟩ := List.mem_map.1 (List.mem_toArray.1 hx)
  exact c.holds_getD_coerce? u

/-- The component type of an array is that of its class. -/
theorem HoldsArray.component?_eq (h : w.HoldsArray v c n) : w.component? v = some c := by
  rw [component?, h.cls]
  rfl

theorem AddsObjects.class? {cls : Host.Class} (h : w.AddsObjects w')
    (hv : w.class? v = some cls) : w'.class? v = some cls := by
  cases v with
  | object r =>
    obtain ⟨o, ho, rfl⟩ := Option.map_eq_some_iff.1 hv
    exact Option.map_eq_some_iff.2 ⟨o, h.objects r o ho, rfl⟩
  | _ => exact hv

theorem AddsObjects.array? {items : Array Value} (h : w.AddsObjects w')
    (hv : w.array? v = some items) : w'.array? v = some items :=
  array?_eq_some_iff.2 (h.data? (array?_eq_some_iff.1 hv))

/-- An array is not touched by what adds objects. -/
theorem AddsObjects.keepsArray (h : w.AddsObjects w') : w.KeepsArray v c n w' := by
  rintro ⟨hcls, items, harray, htyped⟩
  exact ⟨h.class? hcls, items, h.array? harray, htyped⟩

/-- An array is not touched where the host objects are the same. -/
theorem KeepsArray.of_objects_eq (h : w'.objects = w.objects) : w.KeepsArray v c n w' := by
  rintro ⟨hcls, items, harray, htyped⟩
  refine ⟨?_, items, ?_, htyped⟩
  · rw [← hcls]
    unfold class?
    rw [h]
  · rw [array?_eq_some_iff] at harray ⊢
    rwa [data?_congr h]

/-- An element is replaced by a value of the kind. -/
theorem HoldsArray.setItem (h : w.HoldsArray v c n) {x : Value} (hx : c.holds x = true) (i : Nat) :
    (w.changeItems v (·.setIfInBounds i x)).HoldsArray v c n := by
  obtain ⟨hcls, items, harray, hsize, htyped⟩ := h
  refine ⟨(w.class?_changeData v v _).trans hcls, _, array?_changeItems harray _,
    by rw [Array.size_setIfInBounds, hsize], fun y hy => ?_⟩
  obtain hmem | rfl := Array.mem_or_eq_of_mem_setIfInBounds hy
  · exact htyped y hmem
  · exact hx

/-- An array takes a write at the index of an element if its component type can hold the value. -/
theorem HoldsArray.elementWrite?_eq_some_iff (h : w.HoldsArray v c n) {name : String} {u : Value}
    {change : Data → Data} :
    w.elementWrite? v name u = some change ↔ ∃ i x, indexKey? name = some i ∧ i < n ∧
      c.coerce? u = some x ∧ Data.changeItems (·.setIfInBounds i x) = change := by
  obtain ⟨items, harray, rfl, -⟩ := h.typed
  rw [elementWrite?, array?_eq_some_iff.1 harray, Option.bind_some, h.component?_eq,
    Data.elementWrite?]
  simp only [Component.heldAs?, Data.itemChange?, Option.bind_eq_some_iff,
    Option.ite_none_right_eq_some, Option.some.injEq]
  constructor
  · rintro ⟨x, hx, i, hi, hlt, rfl⟩
    exact ⟨i, x, hi, hlt, hx, rfl⟩
  · rintro ⟨i, x, hi, hlt, hx, rfl⟩
    exact ⟨x, hx, i, hi, hlt, rfl⟩

/-- Only arrays of objects have elements deleted, and null takes their place. -/
theorem HoldsArray.elementRemoval?_eq_some_iff (h : w.HoldsArray v c n) {name : String}
    {change : Data → Data} :
    w.elementRemoval? v name = some change ↔ c.isPrimitive = false ∧ ∃ i, indexKey? name = some i ∧
      i < n ∧ Data.changeItems (·.setIfInBounds i .null) = change := by
  obtain ⟨items, harray, rfl, -⟩ := h.typed
  rw [elementRemoval?, array?_eq_some_iff.1 harray, Option.bind_some, h.component?_eq,
    Data.elementRemoval?]
  simp only [Option.any_some, Data.itemChange?, Option.ite_none_left_eq_some,
    Bool.not_eq_true, Option.bind_eq_some_iff, Option.ite_none_right_eq_some, Option.some.injEq]

end World

namespace Run

variable {v : Value} {c : Component} {n : Nat}

/-- An array of a component type takes no other values. -/
theorem keepsArray_setElement (name : String) (u : Value) :
    (setElement v name u).Within (World.KeepsArray v c n) := by
  intro w h
  rw [setElement_eq]
  cases hchange : w.elementWrite? v name u with
  | none => exact h
  | some change =>
    obtain ⟨i, x, -, -, hx, rfl⟩ := h.elementWrite?_eq_some_iff.1 hchange
    exact h.setItem (Component.holds_of_coerce? hx) i

/-- An array from which elements are deleted can hold null. -/
theorem keepsArray_deleteProperty (property : Script.Value) :
    (deleteProperty v property).Within (World.KeepsArray v c n) := by
  intro w h
  rw [deleteProperty_eq]
  cases hchange : property.propertyName?.bind (w.elementRemoval? v) with
  | none => exact h
  | some change =>
    obtain ⟨name, -, hremoval⟩ := Option.bind_eq_some_iff.1 hchange
    obtain ⟨hc, i, -, -, rfl⟩ := h.elementRemoval?_eq_some_iff.1 hremoval
    exact h.setItem (by rw [c.holds_null, hc]; rfl) i

end Run

end Membrane
