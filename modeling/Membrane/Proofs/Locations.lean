import Membrane.Proofs.Equality
import Membrane.Proofs.Exposure
import Membrane.Proofs.Slots
import Membrane.Proofs.Writing

/-!
# One write, one place

A request to write a property is offered to the storage of a collection, then to a field, then to a
setter. The first two of these change one place at most: an item of a list or an array, an entry of
a map, a field of an object or a static field of a class. A request that is declined has changed
nothing, whichever of the three it was offered to. A deletion drops an item of a list or an entry of
a map, or puts null in the place of an item of an array.

## Main definitions

* `Location`, `World.at?`: a place where the host keeps one value, and what is there.
* `Handler.Writes`: what a write that is taken by storage or a field does.
* `World.Removes`: what a deletion that is taken does.

## Main results

* `Handler.Writes.at?_self`, `Handler.Writes.at?_of_ne`: one place changes.
* `Handler.writes_of_setElement`, `Handler.writes_of_writeField`: what takes a write.
* `World.removes_of_deleteProperty`: what takes a deletion.
* `requests_touch_one_place`: what becomes of a request to write or to delete.
-/

namespace Membrane

open Host (Component Data Value)

/-! ### Places -/

/-- A place where the host keeps one value. -/
inductive Location where
  /-- An item of a list or an array. -/
  | item (r : Ref .object) (i : Nat)
  /-- The entry of a map under a key. -/
  | entry (r : Ref .object) (key : Value)
  /-- A field of an object. -/
  | field (s : Slot)
  /-- A static field of a class. -/
  | static (c : Host.Class) (name : String)
  deriving DecidableEq

namespace Host.Data

/-- An item of the storage of a list or an array. -/
def item? (i : Nat) : Data → Option Value
  | .list items | .array items => items[i]?
  | _ => none

/-- An entry of the storage of a map. -/
def entry? (key : Value) : Data → Option Value
  | .map entries => entries.get? key
  | _ => none

end Host.Data

namespace World

/-- What is at a place, if the place is there. -/
def at? (w : World) : Location → Option Value
  | .item r i => (w.data? (.object r)).bind (Data.item? i)
  | .entry r key => (w.data? (.object r)).bind (Data.entry? key)
  | .field s => w.slot? s
  | .static c name => w.static? c name

variable {w : World} {r : Ref .object} {data data' : Data} {q : Location}

theorem data?_putData (h : w.data? (.object r) = some data) (data' : Data) :
    (w.putData (.object r) data').data? (.object r) = some data' := by
  rw [putData, data?_changeData, h]
  rfl

/-- When the storage of an object is replaced, only the places in it may change. -/
theorem at?_putData_of_ne (hdata : w.data? (.object r) = some data)
    (hitem : ∀ i, q = .item r i → data'.item? i = data.item? i)
    (hentry : ∀ key, q = .entry r key → data'.entry? key = data.entry? key) :
    (w.putData (.object r) data').at? q = w.at? q := by
  cases q with
  | item r' i =>
    by_cases hr : r' = r
    · subst hr
      simp only [at?, data?_putData hdata, hdata, Option.bind_some, hitem i rfl]
    · have hne : Value.object r' ≠ .object r := by simpa using hr
      simp only [at?, putData, data?_changeData_of_ne _ hne]
  | entry r' key =>
    by_cases hr : r' = r
    · subst hr
      simp only [at?, data?_putData hdata, hdata, Option.bind_some, hentry key rfl]
    · have hne : Value.object r' ≠ .object r := by simpa using hr
      simp only [at?, putData, data?_changeData_of_ne _ hne]
  | field s => exact slot?_changeData w s _ _
  | static c name => rfl

theorem at?_putSlot_of_ne {s : Slot} (u : Value) (h : q ≠ .field s) :
    (w.putSlot s u).at? q = w.at? q := by
  cases q with
  | item r i => simp only [at?, data?_putSlot]
  | entry r key => simp only [at?, data?_putSlot]
  | field s' => exact slot?_putSlot_of_ne fun heq => h (congrArg Location.field heq)
  | static c name => rfl

theorem at?_putStatic_of_ne {c : Host.Class} {name : String} (u : Value) (h : q ≠ .static c name) :
    (w.putStatic c name u).at? q = w.at? q := by
  cases q with
  | static c' name' =>
    refine Dictionary.get?_put.trans (if_neg fun heq => h ?_)
    obtain ⟨rfl, rfl⟩ := Prod.mk.inj (eq_of_beq heq)
    rfl
  | item r i | entry r key | field s => rfl

end World

/-! ### Entries under texts -/

section Texts

variable {entries : Dictionary Value Value} {name : String} {key : Value}

theorem string_beq_eq_false (h : key ≠ .string name) : (Value.string name == key) = false :=
  Bool.eq_false_iff.2 fun heq => h (beq_string_iff.1 (BEq.symm heq))

theorem string_notMem_keys_iff :
    .string name ∉ entries.keys ↔ ∀ e ∈ entries, ¬e.1 == .string name := by
  simp only [Dictionary.keys, List.mem_map, beq_string_iff, not_exists, not_and]

/-- Nothing is read under a text that is no key. -/
theorem get?_string_eq_none (h : .string name ∉ entries.keys) :
    entries.get? (.string name) = none := by
  rw [← Option.not_isSome_iff_eq_none, ← Dictionary.contains_eq_isSome_get?, Dictionary.contains,
    List.any_eq_true, not_exists]
  exact fun e he => string_notMem_keys_iff.1 h e he.1 he.2

/-- A value put under a text replaces that of the entry there is, or comes in a new entry at the
end. -/
theorem put_string_cases (entries : Dictionary Value Value) (name : String) (v : Value) :
    (∃ (pre : Dictionary Value Value) (old : Value) (post : Dictionary Value Value),
      entries = pre ++ (.string name, old) :: post ∧ .string name ∉ pre.keys ∧
      entries.put (.string name) v = pre ++ (.string name, v) :: post) ∨
    .string name ∉ entries.keys ∧
      entries.put (.string name) v = entries ++ [(.string name, v)] := by
  obtain ⟨pre, ⟨key, old⟩, post, rfl, hkey, hpre, hput⟩ | ⟨hnone, hput⟩ :=
    entries.put_cases (.string name) v
  · cases beq_string_iff.1 hkey
    exact .inl ⟨pre, old, post, rfl, string_notMem_keys_iff.2 hpre, hput⟩
  · exact .inr ⟨string_notMem_keys_iff.2 hnone, hput⟩

/-- The entry under a text is erased if there is one. -/
theorem erase_string_cases (entries : Dictionary Value Value) (name : String) :
    (∃ (pre : Dictionary Value Value) (old : Value) (post : Dictionary Value Value),
      entries = pre ++ (.string name, old) :: post ∧ .string name ∉ pre.keys ∧
      entries.erase (.string name) = pre ++ post) ∨
    .string name ∉ entries.keys ∧ entries.erase (.string name) = entries := by
  obtain ⟨pre, ⟨key, old⟩, post, rfl, hkey, hpre, herase⟩ | ⟨hnone, herase⟩ :=
    entries.erase_cases (.string name)
  · cases beq_string_iff.1 hkey
    exact .inl ⟨pre, old, post, rfl, string_notMem_keys_iff.2 hpre, herase⟩
  · exact .inr ⟨string_notMem_keys_iff.2 hnone, herase⟩

end Texts

/-! ### Writes -/

/-- What becomes of a world when storage or a field takes a write of a property: it stores something
at one place. -/
inductive Handler.Writes (h : Handler) (name : String) (v : Value) (w : World) :
    Location → Value → World → Prop
  /-- The value replaces an item of a list. -/
  | listItem {r : Ref .object} {items : Array Value} {i : Nat} (htarget : h.target = .object r)
      (hlist : w.list? h.target = some items) (hindex : indexKey? name = some i)
      (hlt : i < items.size) :
      h.Writes name v w (.item r i) v (w.putData h.target (.list (items.set i v)))
  /-- What an array can hold of the value replaces an item. -/
  | arrayItem {r : Ref .object} {items : Array Value} {i : Nat} {u : Value}
      (htarget : h.target = .object r) (harray : w.array? h.target = some items)
      (hindex : indexKey? name = some i) (hlt : i < items.size)
      (hheld : Component.heldAs? (w.component? h.target) v = some u) :
      h.Writes name v w (.item r i) u (w.putData h.target (.array (items.set i u)))
  /-- The value replaces that of an entry of a map, which stays where it is. -/
  | entry {r : Ref .object} {pre post : Dictionary Value Value} {old : Value}
      (htarget : h.target = .object r)
      (hmap : w.map? h.target = some (pre ++ (.string name, old) :: post))
      (hfirst : .string name ∉ pre.keys) :
      h.Writes name v w (.entry r (.string name)) v
        (w.putData h.target (.map (pre ++ (.string name, v) :: post)))
  /-- An entry is added to a map that has none under the name. -/
  | newEntry {r : Ref .object} {entries : Dictionary Value Value} (htarget : h.target = .object r)
      (hmap : w.map? h.target = some entries) (hnew : .string name ∉ entries.keys) :
      h.Writes name v w (.entry r (.string name)) v
        (w.putData h.target (.map (entries ++ [(.string name, v)])))
  /-- The value replaces that of a field of the object. -/
  | field {r : Ref .object} {e : Descriptor.FieldEntry} {old : Value}
      (htarget : h.target = .object r) (hfield : h.descriptor.field? name = some e)
      (hfinal : e.field.isFinal = false) (hinstance : e.field.isStatic = false)
      (hslot : w.slot? ⟨r, name⟩ = some old) :
      h.Writes name v w (.field ⟨r, name⟩) v (w.putSlot ⟨r, name⟩ v)
  /-- The value becomes that of a static field of the class that declares it. -/
  | static {e : Descriptor.FieldEntry} (hfield : h.descriptor.field? name = some e)
      (hdeclared : e.field ∈ e.owner.own.fields) (hfinal : e.field.isFinal = false)
      (hstatic : e.field.isStatic = true) :
      h.Writes name v w (.static e.owner name) v (w.putStatic e.owner name v)

namespace Handler

section Writes

variable {h : Handler} {name : String} {v u : Value} {w w' : World} {p q : Location}

/-- Only a reference to an object has storage. -/
theorem exists_target_of_data? {target : Value} {data : Data} (hdata : w.data? target = some data) :
    ∃ r, target = .object r := by
  obtain ⟨r, -, rfl, -, -⟩ := World.exists_object_of_data? hdata
  exact ⟨r, rfl⟩

/-- The value stored is at its place afterwards. -/
theorem Writes.at?_self (hwrites : h.Writes name v w p u w') : w'.at? p = some u := by
  cases hwrites with
  | listItem htarget hlist hindex hlt =>
    rw [htarget] at hlist ⊢
    simp only [World.at?, World.data?_putData (World.list?_eq_some_iff.1 hlist), Option.bind_some,
      Data.item?, Array.getElem?_set_self]
  | arrayItem htarget harray hindex hlt hheld =>
    rw [htarget] at harray ⊢
    simp only [World.at?, World.data?_putData (World.array?_eq_some_iff.1 harray),
      Option.bind_some, Data.item?, Array.getElem?_set_self]
  | entry htarget hmap hfirst =>
    rw [htarget] at hmap ⊢
    simp only [World.at?, World.data?_putData (World.map?_eq_some_iff.1 hmap), Option.bind_some,
      Data.entry?]
    rw [Dictionary.get?_append, get?_string_eq_none hfirst, Option.none_or, Dictionary.get?_cons,
      if_pos BEq.rfl]
  | newEntry htarget hmap hnew =>
    rw [htarget] at hmap ⊢
    simp only [World.at?, World.data?_putData (World.map?_eq_some_iff.1 hmap), Option.bind_some,
      Data.entry?]
    rw [Dictionary.get?_append, get?_string_eq_none hnew, Option.none_or, Dictionary.get?_cons,
      if_pos BEq.rfl]
  | field htarget hfield hfinal hinstance hslot => exact World.slot?_putSlot hslot v
  | static hfield hdeclared hfinal hstatic => exact Dictionary.get?_put.trans (if_pos BEq.rfl)

/-- Every other place is as it was. -/
theorem Writes.at?_of_ne (hwrites : h.Writes name v w p u w') (hne : q ≠ p) :
    w'.at? q = w.at? q := by
  cases hwrites with
  | listItem htarget hlist hindex hlt =>
    rw [htarget] at hlist ⊢
    refine World.at?_putData_of_ne (World.list?_eq_some_iff.1 hlist) (fun j hj => ?_) fun _ _ => rfl
    exact Array.getElem?_set_ne hlt fun heq => hne (heq ▸ hj)
  | arrayItem htarget harray hindex hlt hheld =>
    rw [htarget] at harray ⊢
    refine World.at?_putData_of_ne (World.array?_eq_some_iff.1 harray) (fun j hj => ?_)
      fun _ _ => rfl
    exact Array.getElem?_set_ne hlt fun heq => hne (heq ▸ hj)
  | entry htarget hmap hfirst =>
    rw [htarget] at hmap ⊢
    refine World.at?_putData_of_ne (World.map?_eq_some_iff.1 hmap) (fun _ _ => rfl)
      fun key hkey => ?_
    have hother := string_beq_eq_false fun heq => hne (hkey.trans (heq ▸ rfl))
    simp [Data.entry?, Dictionary.get?_append, Dictionary.get?_cons, hother]
  | newEntry htarget hmap hnew =>
    rw [htarget] at hmap ⊢
    refine World.at?_putData_of_ne (World.map?_eq_some_iff.1 hmap) (fun _ _ => rfl)
      fun key hkey => ?_
    have hother := string_beq_eq_false fun heq => hne (hkey.trans (heq ▸ rfl))
    simp [Data.entry?, Dictionary.get?_append, Dictionary.get?_cons, hother]
  | field htarget hfield hfinal hinstance hslot => exact World.at?_putSlot_of_ne v hne
  | static hfield hdeclared hfinal hstatic => exact World.at?_putStatic_of_ne v hne

/-- When storage takes a write, one place changes. -/
theorem writes_of_setElement (hrun : Run.setElement h.target name v w = .ok true w') :
    ∃ p u, h.Writes name v w p u w' := by
  rw [Run.setElement_eq] at hrun
  cases hchange : w.elementWrite? h.target name v with
  | none =>
    rw [hchange] at hrun
    cases hrun
  | some change =>
    rw [hchange] at hrun
    cases hrun
    obtain ⟨data, hdata, hwrite⟩ := Option.bind_eq_some_iff.1 hchange
    obtain ⟨r, htarget⟩ := exists_target_of_data? hdata
    cases data with
    | list items =>
      obtain ⟨i, hindex, hlt, rfl⟩ := Data.exists_of_itemChange? hwrite
      have hchanged : w.changeData h.target (.changeItems (·.setIfInBounds i v)) =
          w.putData h.target (.list (items.set i v)) :=
        World.changeData_congr hdata (by simp [Data.changeItems, Array.setIfInBounds, hlt])
      rw [hchanged]
      exact ⟨_, _, .listItem htarget (World.list?_eq_some_iff.2 hdata) hindex hlt⟩
    | array items =>
      obtain ⟨u, hheld, hwrite⟩ := Option.bind_eq_some_iff.1 hwrite
      obtain ⟨i, hindex, hlt, rfl⟩ := Data.exists_of_itemChange? hwrite
      have hchanged : w.changeData h.target (.changeItems (·.setIfInBounds i u)) =
          w.putData h.target (.array (items.set i u)) :=
        World.changeData_congr hdata (by simp [Data.changeItems, Array.setIfInBounds, hlt])
      rw [hchanged]
      exact ⟨_, _, .arrayItem htarget (World.array?_eq_some_iff.2 hdata) hindex hlt hheld⟩
    | map entries =>
      cases hwrite
      have hchanged : w.changeData h.target (.changeEntries (·.put (.string name) v)) =
          w.putData h.target (.map (entries.put (.string name) v)) :=
        World.changeData_congr hdata rfl
      rw [hchanged]
      obtain ⟨pre, old, post, rfl, hfirst, hput⟩ | ⟨hnew, hput⟩ := put_string_cases entries name v
      · rw [hput]
        exact ⟨_, _, .entry htarget (World.map?_eq_some_iff.2 hdata) hfirst⟩
      · rw [hput]
        exact ⟨_, _, .newEntry htarget (World.map?_eq_some_iff.2 hdata) hnew⟩
    | _ => cases hwrite

/-- When a field takes a write, one place changes. -/
theorem writes_of_writeField {config : Config} {c : Host.Class} {isStatic : Bool}
    {e : Descriptor.FieldEntry} (hd : h.descriptor = .build config c isStatic)
    (hfield : h.descriptor.field? name = some e)
    (hrun : Run.writeField e h.target v w = .ok true w') : ∃ p u, h.Writes name v w p u w' := by
  obtain ⟨hdeclared, rfl⟩ := Descriptor.declared_of_field? (hd ▸ hfield)
  unfold Run.writeField at hrun
  split at hrun
  · cases hrun
  · next hfinal =>
    split at hrun
    · next hstatic =>
      cases hrun
      exact ⟨_, _, .static hfield hdeclared (Bool.eq_false_iff.2 hfinal) hstatic⟩
    · next hinstance =>
      rw [Run.get_bind] at hrun
      obtain hset | ⟨w₁, hset⟩ := w.setField_cases h.target e.field.name v
      · rw [hset] at hrun
        cases hrun
      · rw [hset] at hrun
        cases hrun
        obtain ⟨⟨r, name⟩, old, htarget, rfl, hslot, rfl⟩ := World.exists_slot?_of_setField hset
        exact ⟨_, _, .field htarget hfield (Bool.eq_false_iff.2 hfinal)
          (Bool.eq_false_iff.2 hinstance) hslot⟩

end Writes

end Handler

/-! ### Deletions -/

/-- What becomes of a world when the storage of a value takes the deletion of a property. -/
inductive World.Removes (target : Value) (name : String) (w : World) : World → Prop
  /-- A list loses an item, and the others stay in order. -/
  | listItem {items : Array Value} {i : Nat} (hlist : w.list? target = some items)
      (hindex : indexKey? name = some i) (hlt : i < items.size) :
      w.Removes target name (w.putData target (.list (items.eraseIdx i)))
  /-- An array of objects holds null in the place of an item. -/
  | arrayItem {items : Array Value} {i : Nat} (harray : w.array? target = some items)
      (hcomponent : (w.component? target).any Component.isPrimitive = false)
      (hindex : indexKey? name = some i) (hlt : i < items.size) :
      w.Removes target name (w.putData target (.array (items.set i .null)))
  /-- A map loses the entry under the name, and the others stay in order. -/
  | entry {pre post : Dictionary Value Value} {old : Value}
      (hmap : w.map? target = some (pre ++ (.string name, old) :: post))
      (hfirst : .string name ∉ pre.keys) :
      w.Removes target name (w.putData target (.map (pre ++ post)))
  /-- A map has no entry under the name, and nothing changes. -/
  | noEntry {entries : Dictionary Value Value} (hmap : w.map? target = some entries)
      (hnone : .string name ∉ entries.keys) : w.Removes target name w

/-- A deletion is taken by storage. -/
theorem World.removes_of_deleteProperty {target : Value} {property : Script.Value} {w w' : World}
    (hrun : Run.deleteProperty target property w = .ok true w') :
    ∃ name, property.propertyName? = some name ∧ w.Removes target name w' := by
  rw [Run.deleteProperty_eq] at hrun
  cases hchange : property.propertyName?.bind (w.elementRemoval? target) with
  | none =>
    rw [hchange] at hrun
    cases hrun
  | some change =>
    rw [hchange] at hrun
    cases hrun
    obtain ⟨name, hname, hchange⟩ := Option.bind_eq_some_iff.1 hchange
    obtain ⟨data, hdata, hremoval⟩ := Option.bind_eq_some_iff.1 hchange
    refine ⟨name, hname, ?_⟩
    cases data with
    | list items =>
      obtain ⟨i, hindex, hlt, rfl⟩ := Data.exists_of_itemChange? hremoval
      have hchanged : w.changeData target (.changeItems (·.eraseIdxIfInBounds i)) =
          w.putData target (.list (items.eraseIdx i)) :=
        changeData_congr hdata (by simp [Data.changeItems, Array.eraseIdxIfInBounds, hlt])
      rw [hchanged]
      exact .listItem (list?_eq_some_iff.2 hdata) hindex hlt
    | array items =>
      simp only [Data.elementRemoval?] at hremoval
      split at hremoval
      · cases hremoval
      · next hcomponent =>
        obtain ⟨i, hindex, hlt, rfl⟩ := Data.exists_of_itemChange? hremoval
        have hchanged : w.changeData target (.changeItems (·.setIfInBounds i .null)) =
            w.putData target (.array (items.set i .null)) :=
          changeData_congr hdata (by simp [Data.changeItems, Array.setIfInBounds, hlt])
        rw [hchanged]
        exact .arrayItem (array?_eq_some_iff.2 hdata) (Bool.eq_false_iff.2 hcomponent) hindex hlt
    | map entries =>
      cases hremoval
      have hchanged : w.changeData target (.changeEntries (·.erase (.string name))) =
          w.putData target (.map (entries.erase (.string name))) :=
        changeData_congr hdata rfl
      obtain ⟨pre, old, post, rfl, hfirst, herase⟩ | ⟨hnone, herase⟩ :=
        erase_string_cases entries name
      · rw [hchanged, herase]
        exact .entry (map?_eq_some_iff.2 hdata) hfirst
      · have hsame : w.changeData target (.changeEntries (·.erase (.string name))) = w :=
          changeData_eq_self hdata (congrArg Data.map herase)
        rw [hsame]
        exact .noEntry (map?_eq_some_iff.2 hdata) hnone
    | _ => cases hremoval

/-- A deletion that is declined has changed nothing. -/
theorem Run.eq_of_deleteProperty {target : Value} {property : Script.Value} {w w' : World}
    (hrun : Run.deleteProperty target property w = .ok false w') : w' = w := by
  rw [Run.deleteProperty_eq] at hrun
  cases hchange : property.propertyName?.bind (w.elementRemoval? target) with
  | none =>
    rw [hchange] at hrun
    cases hrun
    rfl
  | some change =>
    rw [hchange] at hrun
    cases hrun

/-! ### Requests -/

section Requests

variable {eng : Engine} {h : Handler} {property value : Script.Value} {w w' : World}

/-- A write that is declined has changed nothing. -/
theorem Engine.addsObjects_of_setProperty
    (hrun : eng.setProperty h property value w = .ok false w') : w.AddsObjects w' := by
  obtain ⟨-, rfl⟩ | ⟨name, v, w₁, -, hvalue, hnamed⟩ := setProperty_eq_ok hrun
  · exact refl w'
  · obtain ⟨w₂, htaken⟩ | hdeclines := eng.setNamed_cases h name v w₁
    · cases htaken.symm.trans hnamed
    · rw [setNamed_of_declines hdeclines] at hnamed
      obtain ⟨-, rfl⟩ | ⟨htaken, -⟩ := setAccessor_eq_ok hnamed
      · exact (eng.within_toHost value).rel_of_ok hvalue
      · cases htaken

/-- A write that is taken is left to a setter, or changes one place once the value has crossed. -/
theorem Engine.writes_of_setProperty {config : Config} {c : Host.Class} {isStatic : Bool}
    (hd : h.descriptor = .build config c isStatic)
    (hrun : eng.setProperty h property value w = .ok true w') :
    (∃ m v w₁, eng.LeavesToSetter h property value w m v w₁) ∨
    ∃ name v w₁ p u, property.propertyName? = some name ∧ eng.toHost value w = .ok v w₁ ∧
      h.Writes name v w₁ p u w' := by
  obtain ⟨hdeclined, -⟩ | ⟨name, v, w₁, hname, hvalue, hnamed⟩ := setProperty_eq_ok hrun
  · cases hdeclined
  · obtain ⟨w₂, helement, htaken⟩ | ⟨e, w₂, hfield, hwrite, htaken⟩ | hdeclines :=
      eng.setNamed_takers h name v w₁
    · cases htaken.symm.trans hnamed
      obtain ⟨p, u, hwrites⟩ := Handler.writes_of_setElement helement
      exact .inr ⟨name, v, w₁, p, u, hname, hvalue, hwrites⟩
    · cases htaken.symm.trans hnamed
      obtain ⟨p, u, hwrites⟩ := Handler.writes_of_writeField hd hfield hwrite
      exact .inr ⟨name, v, w₁, p, u, hname, hvalue, hwrites⟩
    · rw [setNamed_of_declines hdeclines] at hnamed
      obtain ⟨hdeclined, -⟩ | ⟨-, m, hsetter⟩ := setAccessor_eq_ok hnamed
      · cases hdeclined
      · exact .inl ⟨m, v, w₁, hvalue, name, hname, hdeclines, hsetter⟩

end Requests

/-- What becomes of a request to write a property, or to delete one, whatever the engine and the
target. A write that is declined has changed nothing: at most, the arrays in the value were copied.
A write that is taken is left to a setter, or it changes one place once the value has crossed: an
item of a list or an array, the entry of a map under the name, the field of the name, or the static
field of the name in the class that declares it. Every other place is as it was. A deletion that is
declined has changed nothing, and one that is taken has done nothing but drop an item of a list or
the entry under the name, or put null in the place of an item of an array. -/
theorem requests_touch_one_place (eng : Engine) {h : Handler} {config : Config} {c : Host.Class}
    {isStatic : Bool} (hd : h.descriptor = .build config c isStatic)
    (property value : Script.Value) (w : World) :
    (∀ w', eng.setProperty h property value w = .ok false w' → w.AddsObjects w') ∧
    (∀ w', eng.setProperty h property value w = .ok true w' →
      (∃ m v w₁, eng.LeavesToSetter h property value w m v w₁) ∨
      ∃ name v w₁ p u, property.propertyName? = some name ∧ eng.toHost value w = .ok v w₁ ∧
        w.AddsObjects w₁ ∧ h.Writes name v w₁ p u w' ∧
        w'.at? p = some u ∧ ∀ q, q ≠ p → w'.at? q = w₁.at? q) ∧
    (∀ w', Run.deleteProperty h.target property w = .ok false w' → w' = w) ∧
    ∀ w', Run.deleteProperty h.target property w = .ok true w' →
      ∃ name, property.propertyName? = some name ∧ w.Removes h.target name w' := by
  refine ⟨fun w' => Engine.addsObjects_of_setProperty, fun w' hrun => ?_,
    fun w' => Run.eq_of_deleteProperty, fun w' => World.removes_of_deleteProperty⟩
  refine (Engine.writes_of_setProperty hd hrun).imp_right ?_
  rintro ⟨name, v, w₁, p, u, hname, hvalue, hwrites⟩
  exact ⟨name, v, w₁, p, u, hname, hvalue, (eng.within_toHost value).rel_of_ok hvalue, hwrites,
    hwrites.at?_self, fun q => hwrites.at?_of_ne⟩

/-- Of a list of two nulls an item is written, and one is deleted. -/
theorem requests_touch_one_place_twoNulls :
    (∃ w, (Engine.direct Config.standard).setProperty twoNullsHandler (.string "1") (.boolean true)
        twoNulls = .ok true w ∧
      ∃ p u, w.at? p = some u ∧ ∀ q, q ≠ p → w.at? q = twoNulls.at? q) ∧
    ∃ w, Run.deleteProperty onlyList (.string "0") twoNulls = .ok true w ∧
      twoNulls.Removes onlyList "0" w := by
  obtain ⟨-, hset, -, -⟩ := requests_touch_one_place (Engine.direct Config.standard)
    (h := twoNullsHandler) rfl (.string "1") (.boolean true) twoNulls
  obtain ⟨-, -, -, hdelete⟩ := requests_touch_one_place (Engine.direct Config.standard)
    (h := twoNullsHandler) rfl (.string "0") .null twoNulls
  obtain ⟨w, hw⟩ : ∃ w, Run.deleteProperty onlyList (.string "0") twoNulls = .ok true w := ⟨_, rfl⟩
  obtain ⟨name, hname, hremoves⟩ := hdelete w hw
  cases hname
  refine ⟨⟨_, rfl, ?_⟩, w, hw, hremoves⟩
  obtain ⟨m, v, w₁, hleft⟩ | ⟨name, v, w₁, p, u, -, hvalue, -, -, hself, hothers⟩ := hset _ rfl
  · obtain ⟨name, hname, -, hsetter⟩ := hleft.declined
    cases hname
    have hnone : twoNullsHandler.descriptor.setter? "1" = none := by decide
    cases hnone.symm.trans hsetter
  · cases hvalue
    exact ⟨p, u, hself, hothers⟩

end Membrane
