import Membrane.Proofs.Dictionary
import Membrane.Proofs.Storage
import Membrane.Proofs.Texts

/-!
# Field slots

The fields of an object are apart from its storage, and from everything else a world holds: what is
stored in collections, which class an object has and how it is written as text do not depend on any
field. A slot is one field of one object. To replace what a slot holds commutes with every change of
something else.

## Main definitions

* `Slot`, `World.slot?`, `World.putSlot`: a field of an object, what it holds, and its replacement.
* `World.changeFields`: changes of the fields of an object.

## Main results

* `World.hostText?_changeFields`: text does not depend on fields.
* `World.changeData_putSlot`, `World.setField_putSlot`: changes of something else.
-/

namespace Membrane

open Host (Data Object Value)

/-! ### Replacing values -/

section Replacing

variable {κ α : Type} [BEq κ]

/-- Replaces the value stored under a key, if there is one. -/
def Dictionary.replace (d : Dictionary κ α) (k : κ) (v : α) : Dictionary κ α :=
  if d.contains k then d.put k v else d

variable [LawfulBEq κ] {d : Dictionary κ α} {k k' : κ} {v v' : α}

theorem Dictionary.get?_replace_self (h : (d.get? k).isSome) : (d.replace k v).get? k = some v := by
  rw [replace, if_pos (by rwa [contains_eq_isSome_get?]), get?_put, if_pos BEq.rfl]

theorem Dictionary.get?_replace_of_ne (h : k ≠ k') : (d.replace k v).get? k' = d.get? k' := by
  unfold replace
  split
  · rw [get?_put, if_neg (by simpa using h)]
  · rfl

/-- Values put under different present keys may be put in either order. -/
theorem Dictionary.put_put_of_ne (hk : k ∈ d.keys) (h : k ≠ k') :
    (d.put k' v').put k v = (d.put k v).put k' v' := by
  induction d with
  | nil => cases hk
  | cons e d ih =>
    by_cases he : e.1 = k
    · subst he
      simp [put_cons, h]
    · have hd : k ∈ keys d := (List.mem_cons.1 hk).resolve_left fun heq => he heq.symm
      by_cases he' : e.1 = k'
      · subst he'
        simp [put_cons, he]
      · simp [put_cons, he, he', ih hd]

/-- A value is replaced before or after another one is put. -/
theorem Dictionary.replace_put_of_ne (h : k ≠ k') :
    (d.put k' v').replace k v = (d.replace k v).put k' v' := by
  have hcontains : (d.put k' v').contains k = d.contains k := by
    rw [contains_eq_isSome_get?, contains_eq_isSome_get?, get?_put,
      if_neg (by simpa using h.symm)]
  unfold replace
  rw [hcontains]
  split
  · next hk => exact put_put_of_ne (contains_iff.1 hk) h
  · rfl

end Replacing

/-! ### Fields of objects -/

/-- A field of a host object. -/
structure Slot where
  /-- The object. -/
  object : Ref .object
  /-- The name of the field. -/
  name : String
  deriving DecidableEq

namespace World

/-- What a slot holds. -/
def slot? (w : World) (s : Slot) : Option Value := (w.objects.get? s.object).bind (·.field? s.name)

/-- Changes the fields of an object. -/
def changeFields (w : World) (r : Ref .object)
    (change : Dictionary String Value → Dictionary String Value) : World :=
  { w with objects := w.objects.modify r fun o => { o with fields := change o.fields } }

/-- Replaces what a slot holds. -/
def putSlot (w : World) (s : Slot) (v : Value) : World :=
  w.changeFields s.object (·.replace s.name v)

variable (w : World) (r : Ref .object)
  (change : Dictionary String Value → Dictionary String Value) (v : Value)

theorem get?_changeFields (r' : Ref .object) :
    (w.changeFields r change).objects.get? r' =
      (w.objects.get? r').map fun o =>
        if r = r' then { o with fields := change o.fields } else o := by
  by_cases h : r = r'
  · subst h
    simp [changeFields, Store.get?_modify_self]
  · simp [changeFields, Store.get?_modify_of_ne _ _ h, h]

theorem data?_changeFields : (w.changeFields r change).data? v = w.data? v := by
  cases v with
  | object r' =>
    simp only [data?, object?, Value.object?, Option.bind_some, get?_changeFields, Option.map_map]
    congr 1
    funext o
    simp only [Function.comp_apply]
    split <;> rfl
  | _ => rfl

theorem class?_changeFields : (w.changeFields r change).class? v = w.class? v := by
  cases v with
  | object r' =>
    simp only [class?, get?_changeFields, Option.map_map]
    congr 1
    funext o
    simp only [Function.comp_apply]
    split <;> rfl
  | _ => rfl

theorem size_changeFields : (w.changeFields r change).objects.size = w.objects.size :=
  Array.size_modify

/-! ### Text -/

/-- The string form of a value does not depend on fields. -/
theorem hostText?_changeFields (locked : List (Ref .object)) :
    (w.changeFields r change).hostText? v locked = w.hostText? v locked := by
  refine hostText?_congr (fun r' => ?_) (w.size_changeFields r change) rfl rfl rfl v locked
  rw [get?_changeFields, Option.map_map]
  congr 1
  funext o
  simp only [Function.comp_apply]
  split <;> rfl

/-! ### Slots -/

variable {w v} {s : Slot} {a b : Value} {name : String}

@[simp] theorem data?_putSlot : (w.putSlot s b).data? v = w.data? v := data?_changeFields ..

@[simp] theorem class?_putSlot : (w.putSlot s b).class? v = w.class? v := class?_changeFields ..

@[simp] theorem hostText?_putSlot (locked : List (Ref .object)) :
    (w.putSlot s b).hostText? v locked = w.hostText? v locked :=
  hostText?_changeFields ..

theorem slot?_eq_some_iff : w.slot? s = some a ↔
    ∃ o, w.objects.get? s.object = some o ∧ o.field? s.name = some a :=
  Option.bind_eq_some_iff

/-- To write a field that an object has is to replace what the slot holds. -/
theorem setField_of_slot? (h : w.slot? s = some a) (b : Value) :
    w.setField (.object s.object) s.name b = (true, w.putSlot s b) := by
  obtain ⟨o, ho, hfield⟩ := slot?_eq_some_iff.1 h
  have hcontains : o.fields.contains s.name := by
    rw [Dictionary.contains_eq_isSome_get?]
    exact Option.isSome_of_eq_some hfield
  simp only [setField, ho, Option.bind_some, hfield, Prod.mk.injEq, true_and]
  refine congrArg (fun objects => { w with objects := objects }) (Store.modify_congr ho ?_)
  simp only [Dictionary.replace, if_pos hcontains]

/-- A field that is written is one the object has. -/
theorem exists_slot?_of_setField {w' : World} (h : w.setField v name b = (true, w')) :
    ∃ s a, v = .object s.object ∧ name = s.name ∧ w.slot? s = some a ∧ w' = w.putSlot s b := by
  cases v with
  | object r =>
    cases hslot : w.slot? ⟨r, name⟩ with
    | none =>
      have hnone : (w.objects.get? r).bind (·.field? name) = none := hslot
      simp [setField, hnone] at h
    | some a =>
      rw [setField_of_slot? hslot] at h
      exact ⟨⟨r, name⟩, a, rfl, rfl, hslot, (Prod.mk.inj h).2.symm⟩
  | _ => cases h

theorem slot?_putSlot (h : w.slot? s = some a) (b : Value) : (w.putSlot s b).slot? s = some b := by
  obtain ⟨o, ho, hfield⟩ := slot?_eq_some_iff.1 h
  refine slot?_eq_some_iff.2 ⟨_, by rw [putSlot, get?_changeFields, ho, Option.map_some], ?_⟩
  rw [if_pos rfl]
  exact Dictionary.get?_replace_self (Option.isSome_of_eq_some hfield)

/-- A field of another name, or of another object, is as it was. -/
theorem field?_putSlot (hne : v = .object s.object → name ≠ s.name) :
    ((w.putSlot s b).object? v).bind (·.field? name) = (w.object? v).bind (·.field? name) := by
  cases v with
  | object r =>
    simp only [object?, Value.object?, Option.bind_some, putSlot, get?_changeFields]
    by_cases h : s.object = r
    · subst h
      cases w.objects.get? s.object with
      | none => rfl
      | some o =>
        simp only [Option.map_some, if_true, Option.bind_some]
        exact Dictionary.get?_replace_of_ne (hne rfl).symm
    · simp [h]
  | _ => rfl

/-- Every other slot is as it was. -/
theorem slot?_putSlot_of_ne {s' : Slot} (h : s' ≠ s) : (w.putSlot s b).slot? s' = w.slot? s' := by
  refine field?_putSlot (v := .object s'.object) fun hobject hname => h ?_
  obtain ⟨r, name⟩ := s
  obtain ⟨r', name'⟩ := s'
  cases hobject
  cases hname
  rfl

/-- The storage of an object is changed before or after what a slot holds is replaced. -/
theorem changeData_putSlot (w : World) (s : Slot) (b v : Value) (change : Data → Data) :
    (w.putSlot s b).changeData v change = (w.changeData v change).putSlot s b := by
  cases v with
  | object r =>
    simp only [changeData, putSlot, changeFields]
    rw [Store.modify_comm]
    exact fun _ _ => rfl
  | _ => rfl

/-- Another field is written before or after what a slot holds is replaced. -/
theorem setField_putSlot (hne : v = .object s.object → name ≠ s.name) (b c : Value) :
    (w.putSlot s b).setField v name c =
      ((w.setField v name c).1, (w.setField v name c).2.putSlot s b) := by
  have hfield := field?_putSlot (w := w) (b := b) hne
  cases v with
  | object r =>
    change ((w.putSlot s b).objects.get? r).bind _ = (w.objects.get? r).bind _ at hfield
    simp only [setField, hfield]
    split
    · refine congrArg (fun objects => (true, { w with objects := objects })) ?_
      refine Store.modify_comm _ fun hr o => ?_
      subst hr
      exact congrArg (Object.mk o.cls o.data) (Dictionary.replace_put_of_ne (hne rfl).symm).symm
    · rfl
  | _ => rfl

/-- What a slot holds is not changed with the storage of an object. -/
theorem slot?_changeData (w : World) (s : Slot) (v : Value) (change : Data → Data) :
    (w.changeData v change).slot? s = w.slot? s := by
  cases v with
  | object r =>
    by_cases h : r = s.object
    · subst h
      simp only [slot?, changeData, Store.get?_modify_self, Option.bind_map]
      rfl
    · simp only [slot?, changeData, Store.get?_modify_of_ne _ _ h]
  | _ => rfl

/-- What a slot holds is not changed with another field. -/
theorem slot?_setField (hne : v = .object s.object → name ≠ s.name) (c : Value) :
    (w.setField v name c).2.slot? s = w.slot? s := by
  cases v with
  | object r =>
    cases hfield : (w.objects.get? r).bind (·.field? name) with
    | none => simp only [setField, hfield]
    | some a =>
      simp only [setField, hfield, slot?]
      by_cases h : r = s.object
      · subst h
        rw [Store.get?_modify_self, Option.bind_map]
        congr 1
        funext o
        exact Dictionary.get?_put.trans (if_neg (by simpa using hne rfl))
      · rw [Store.get?_modify_of_ne _ _ h]
  | _ => rfl

end World

end Membrane
