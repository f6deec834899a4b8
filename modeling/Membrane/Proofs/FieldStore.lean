import Membrane.Proofs.Exposure
import Membrane.Proofs.HeldSequence
import Membrane.Proofs.Privacy
import Membrane.Proofs.Resolution
import Membrane.Proofs.Slots
import Membrane.Proofs.Writing

/-!
# The public fields of an object

Which slots an object has is decided when it is made, by a walk through the hierarchy of its class;
which fields scripts can reach is decided by another walk, which leaves out what is private. Every
field that the second walk finds has a slot that the first walk has made. So to its proxy a plain
object is a store of named values: it takes what is written to the exposed fields that are not
final, gives back what it took last, and declines all else.

## Main definitions

* `Host.Object.IsInstance`: that an object has the slots of its class.
* `Descriptor.IsWritable`: the names of exposed fields that are not final.
* `FieldWrite`, `FieldWrite.runAll`: requests to write, and the values that were accepted.
* `World.Stores`: what an object holds after some values were accepted.

## Main results

* `Descriptor.mem_slotNames_of_field?`: exposed fields have slots.
* `Engine.setProperty_of_isWritable`, `Engine.setProperty_of_not_isWritable`: one request.
* `FieldWrite.stores_run`, `FieldWrite.stores_runAll`: what one request stores, and any number.
* `public_fields_store`: what is read afterwards.
-/

namespace Membrane

open Host (Data Object Value)

/-! ### Slots of instances -/

/-- Under the names that a value was put for it is read. -/
theorem Dictionary.get?_foldl_putNew {α : Type} (names : List String) (v : α) (name : String) :
    get? (names.foldl (fun (d : Dictionary String α) n => d.putNew n v) []) name =
      if name ∈ names then some v else none := by
  induction names using List.reverseRecOn with
  | nil => rfl
  | append_singleton names n ih =>
    rw [List.foldl_append, List.foldl_cons, List.foldl_nil, get?_putNew, ih]
    by_cases hmem : name ∈ names <;> by_cases hname : n = name <;> simp [hmem, hname, Ne.symm]

namespace Host.Object

/-- A fresh object has slots for just the fields that the classes of its hierarchy declare for
instances, and null in each. -/
theorem field?_new (c : Host.Class) (data : Data) (name : String) :
    (new c data).field? name = if name ∈ c.slotNames then some .null else none :=
  Dictionary.get?_foldl_putNew c.slotNames Value.null name

/-- An object has the slots that a fresh instance of its class has. -/
def IsInstance (o : Object) : Prop := o.fields.keys = (new o.cls o.data).fields.keys

theorem isInstance_new (c : Host.Class) (data : Data) : (new c data).IsInstance := rfl

theorem IsInstance.isSome_field?_iff {o : Object} (ho : o.IsInstance) {name : String} :
    (o.field? name).isSome ↔ name ∈ o.cls.slotNames := by
  rw [field?, Dictionary.isSome_get?_iff, ho, ← Dictionary.isSome_get?_iff]
  change ((new o.cls o.data).field? name).isSome ↔ _
  rw [field?_new]
  split <;> simp [*]

end Host.Object

namespace Descriptor

variable {config : Config} {c : Host.Class} {name : String} {e : FieldEntry}

/-- A field that instances show is none of the class itself, and has a slot in every one of them. -/
theorem mem_slotNames_of_field? (h : (build config c false).field? name = some e) :
    name ∈ c.slotNames ∧ e.field.isStatic = false ∧ e.field.name = name := by
  obtain ⟨-, rfl⟩ := declared_of_field? h
  rw [field?_build] at h
  obtain ⟨howner, hfield, -, hinstance⟩ :=
    mem_fieldSequence_instance.1 (List.mem_of_find?_eq_some h)
  have hdeclared : e.field ∈ e.owner.own.fields.filter (!·.isStatic) :=
    List.mem_filter.2 ⟨hfield, by simp [hinstance]⟩
  exact ⟨List.mem_flatMap.2 ⟨e.owner, howner, List.mem_map_of_mem hdeclared⟩, hinstance, rfl⟩

/-- A field of the name is exposed and may be written. -/
def IsWritable (d : Descriptor) (name : String) : Prop :=
  ∃ e, d.field? name = some e ∧ e.field.isFinal = false

end Descriptor

/-! ### One request -/

/-- A handler answers for an instance of a class. -/
structure Handler.ServesInstance (h : Handler) (r : Ref .object) (c : Host.Class) : Prop where
  /-- Its target is the object. -/
  target : h.target = .object r
  /-- It shows what instances of the class show. -/
  descriptor : ∃ config, h.descriptor = .build config c false

/-- A world holds an object of a class without storage of its own. -/
structure World.HoldsPlain (w : World) (r : Ref .object) (c : Host.Class) : Prop where
  /-- It holds nothing but fields. -/
  data : w.data? (.object r) = some .plain
  /-- It has the slots of the class. -/
  slots : ∀ name ∈ c.slotNames, (w.slot? ⟨r, name⟩).isSome

section Request

variable {eng : Engine} {h : Handler} {r : Ref .object} {c : Host.Class} {name : String} {v : Value}
  {value : Script.Value} {e : Descriptor.FieldEntry} {w w₁ : World}

theorem Handler.ServesInstance.mem_slotNames (hh : h.ServesInstance r c)
    (hfield : h.descriptor.field? name = some e) :
    name ∈ c.slotNames ∧ e.field.isStatic = false ∧ e.field.name = name := by
  obtain ⟨config, hd⟩ := hh.descriptor
  rw [hd] at hfield
  exact Descriptor.mem_slotNames_of_field? hfield

namespace World.HoldsPlain

/-- Another object is added. -/
theorem addsObjects (hplain : w.HoldsPlain r c) (hadds : w.AddsObjects w₁) : w₁.HoldsPlain r c where
  data := hadds.data? hplain.data
  slots name hname := by
    obtain ⟨v, hv⟩ := Option.isSome_iff_exists.1 (hplain.slots name hname)
    obtain ⟨o, ho, hfield⟩ := World.slot?_eq_some_iff.1 hv
    exact Option.isSome_of_eq_some (World.slot?_eq_some_iff.2 ⟨o, hadds.objects r o ho, hfield⟩)

/-- What a slot holds is replaced. -/
theorem putSlot (hplain : w.HoldsPlain r c) (name : String) (v : Value) :
    (w.putSlot ⟨r, name⟩ v).HoldsPlain r c where
  data := World.data?_putSlot.trans hplain.data
  slots name' hname' := by
    obtain ⟨old, hold⟩ := Option.isSome_iff_exists.1 (hplain.slots name' hname')
    by_cases heq : name' = name
    · subst heq
      exact Option.isSome_of_eq_some (World.slot?_putSlot hold v)
    · rw [World.slot?_putSlot_of_ne (by simpa using heq)]
      exact Option.isSome_of_eq_some hold

end World.HoldsPlain

/-- Objects are there whatever is put into a slot. -/
theorem World.Knows.putSlot {s : Slot} {u : Value} (hv : w.Knows v) : (w.putSlot s u).Knows v :=
  (w.proceeds_modify s.object _).objects v hv

variable (hh : h.ServesInstance r c) (hplain : w.HoldsPlain r c)
include hh hplain

/-- An object without storage shows no elements. -/
theorem World.HoldsPlain.not_showsElement (name : String) : ¬w.ShowsElement h.target name := by
  rintro (hshows | ⟨-, hshows⟩)
  · simp [World.element?, hh.target, hplain.data] at hshows
  · simp [World.array?, hh.target, hplain.data] at hshows

/-- What is read is what the slot of an exposed field holds. -/
theorem Engine.getProperty_of_slot? (hfield : h.descriptor.field? name = some e)
    (hslot : w.slot? ⟨r, name⟩ = some v) :
    eng.getProperty h (.string name) w = eng.toScript v w := by
  obtain ⟨-, hinstance, rfl⟩ := hh.mem_slotNames hfield
  have hread : w.readField e h.target = v := by
    have hvalue : (w.objects.get? r).bind (·.field? e.field.name) = some v := hslot
    simp [World.readField, hinstance, hh.target, World.object?, Value.object?, hvalue]
  rw [getProperty_of_field? (hplain.not_showsElement hh e.field.name) hfield, hread]

/-- An object without storage declines to write an element. -/
theorem World.HoldsPlain.setElement_eq (name : String) (v : Value) :
    Run.setElement h.target name v w = .ok false w := by
  rw [Run.setElement_eq, World.elementWrite?, hh.target, hplain.data]
  rfl

/-- An exposed field that is not final takes a write. -/
theorem Engine.setNamed_of_isWritable (hwritable : h.descriptor.IsWritable name) (v : Value) :
    eng.setNamed h name v w = .ok true (w.putSlot ⟨r, name⟩ v) := by
  obtain ⟨e, hfield, hfinal⟩ := hwritable
  obtain ⟨hname, hinstance, rfl⟩ := hh.mem_slotNames hfield
  obtain ⟨old, hslot⟩ := Option.isSome_iff_exists.1 (hplain.slots e.field.name hname)
  have hwrite : Run.writeField e h.target v w = .ok true (w.putSlot ⟨r, e.field.name⟩ v) := by
    unfold Run.writeField
    rw [hfinal, hinstance, hh.target]
    simp only [Bool.false_eq_true, if_false, Run.get_bind]
    rw [World.setField_of_slot? hslot v]
    rfl
  refine (Run.bind_of_ok (hplain.setElement_eq hh e.field.name v)).trans ?_
  simp only [hfield]
  exact Run.bind_of_ok hwrite

/-- Every other write is declined, unless there is a setter. -/
theorem Engine.setNamed_of_not_isWritable (hwritable : ¬h.descriptor.IsWritable name)
    (hsetter : h.descriptor.setter? name = none) (v : Value) :
    eng.setNamed h name v w = .ok false w := by
  have hdeclines : w.Declines h name v := by
    refine ⟨hplain.setElement_eq hh name v, fun e hfield => ?_⟩
    have hfinal : e.field.isFinal = true :=
      Bool.of_not_eq_false fun hfinal => hwritable ⟨e, hfield, hfinal⟩
    unfold Run.writeField
    rw [hfinal]
    rfl
  rw [setNamed_of_declines hdeclines, setAccessor, hsetter]
  rfl

/-- A request to write a property without a setter is accepted just if an exposed field of the name
may be written, and fails just if its value does not cross. -/
theorem Engine.setProperty_of_holdsPlain (value : Script.Value)
    (hsetter : h.descriptor.setter? name = none) :
    (∀ e w₁, eng.setProperty h (.string name) value w = .error e w₁ ↔
      eng.toHost value w = .error e w₁) ∧
    ∀ b w₁, eng.setProperty h (.string name) value w = .ok b w₁ →
      (b = true ↔ h.descriptor.IsWritable name) := by
  have hnamed {v : Value} {w₁ : World} (hvalue : eng.toHost value w = .ok v w₁) :
      ∃ b w₂, eng.setNamed h name v w₁ = .ok b w₂ ∧ (b = true ↔ h.descriptor.IsWritable name) := by
    have hplain₁ : w₁.HoldsPlain r c :=
      hplain.addsObjects ((eng.within_toHost value).rel_of_ok hvalue)
    by_cases hwritable : h.descriptor.IsWritable name
    · exact ⟨true, _, setNamed_of_isWritable hh hplain₁ hwritable v, iff_of_true rfl hwritable⟩
    · exact ⟨false, _, setNamed_of_not_isWritable hh hplain₁ hwritable hsetter v,
        iff_of_false Bool.false_ne_true hwritable⟩
  refine ⟨fun e w₁ => ⟨fun herror => ?_, Run.bind_of_error⟩, fun b w₁ hok => ?_⟩
  · obtain hvalue | ⟨v, w₂, hvalue, hfails⟩ := Run.bind_eq_error herror
    · exact hvalue
    · obtain ⟨b, w₃, hanswer, -⟩ := hnamed hvalue
      cases hanswer.symm.trans hfails
  · obtain ⟨v, w₂, hvalue, hanswered⟩ := Run.bind_eq_ok hok
    obtain ⟨b', w₃, hanswer, hiff⟩ := hnamed hvalue
    cases hanswer.symm.trans hanswered
    exact hiff

end Request

/-! ### Any number of requests -/

/-- A request to write a field. -/
structure FieldWrite where
  /-- The name of the property. -/
  name : String
  /-- The value. -/
  value : Script.Value

namespace FieldWrite

/-- Makes the request to a handler. -/
def run (eng : Engine) (h : Handler) (x : FieldWrite) : Run Bool :=
  eng.setProperty h (.string x.name) x.value

/-- The values that were accepted, latest first, once the request is made: if the answer is `true`,
with the host value that came of the value. -/
def logged (eng : Engine) (h : Handler) (x : FieldWrite) (w : World)
    (log : Dictionary String Value) : Dictionary String Value :=
  match x.run eng h w, eng.toHost x.value w with
  | .ok true _, .ok v _ => (x.name, v) :: log
  | _, _ => log

/-- Makes requests one after the other. One that fails does not keep the script from the next. -/
def runAll (eng : Engine) (h : Handler) : List FieldWrite → World → Dictionary String Value →
    World × Dictionary String Value
  | [], w, log => (w, log)
  | x :: xs, w, log => runAll eng h xs (Outcome.world (x.run eng h w)) (x.logged eng h w log)

end FieldWrite

/-- A world goes on from another by values that an object accepted for its fields: each of its slots
holds the value accepted last under its name, or else what it held before. -/
structure World.Stores (w₀ : World) (h : Handler) (r : Ref .object) (c : Host.Class)
    (log : Dictionary String Value) (w : World) : Prop where
  /-- The object is there. -/
  plain : w.HoldsPlain r c
  /-- What its slots hold. -/
  slots : ∀ name, w.slot? ⟨r, name⟩ =
    (w₀.slot? ⟨r, name⟩).map fun old => (log.get? name).getD old
  /-- Values were accepted for exposed fields that are not final. -/
  writable : ∀ e ∈ log, h.descriptor.IsWritable e.1
  /-- The objects of the values are there, if those of all proxies were. -/
  known : w₀.KnowsTargets → ∀ e ∈ log, w.Knows e.2
  /-- The other objects are as they were. -/
  others : ∀ r' o, r' ≠ r → w₀.objects.get? r' = some o → w.objects.get? r' = some o
  /-- So is everything that is no object. -/
  rest : w = { w₀ with objects := w.objects }

section Stores

variable {eng : Engine} {h : Handler} {r : Ref .object} {c : Host.Class} {v : Value} {name : String}
  {log : Dictionary String Value} {w₀ w w₁ : World}

namespace World

theorem stores_nil (hplain : w.HoldsPlain r c) : w.Stores h r c [] w where
  plain := hplain
  slots name := by simp
  writable _ he := by cases he
  known _ _ he := by cases he
  others _ _ _ ho := ho
  rest := rfl

/-- The objects there were still are there. -/
theorem Stores.knows (hs : w₀.Stores h r c log w) (hv : w₀.Knows v) : w.Knows v := by
  intro r' hr'
  obtain ⟨o, ho⟩ := hv r' hr'
  by_cases heq : r' = r
  · obtain ⟨r₁, o₁, hobject, ho₁, -⟩ := World.exists_object_of_data? hs.plain.data
    cases hobject
    exact ⟨o₁, heq ▸ ho₁⟩
  · exact ⟨o, hs.others r' o heq ho⟩

theorem Stores.knowsTargets (hs : w₀.Stores h r c log w) (htargets : w₀.KnowsTargets) :
    w.KnowsTargets := by
  have hhandlers : w.handlers = w₀.handlers := by rw [hs.rest]
  intro r' h' hr'
  exact hs.knows (htargets r' h' (hhandlers ▸ hr'))

/-- A value that is not accepted leaves other objects at most. -/
theorem Stores.addsObjects (hs : w₀.Stores h r c log w) (hadds : w.AddsObjects w₁) :
    w₀.Stores h r c log w₁ where
  plain := hs.plain.addsObjects hadds
  slots name := by
    obtain ⟨r', o, hobject, ho, -⟩ := World.exists_object_of_data? hs.plain.data
    cases hobject
    rw [← hs.slots name, slot?, slot?, hadds.objects r o ho, ho]
  writable := hs.writable
  known htargets e he := hadds.knows (hs.known htargets e he)
  others r' o hne ho := hadds.objects r' o (hs.others r' o hne ho)
  rest := by rw [hadds.rest, hs.rest]

/-- A value that is accepted is what its slot holds. -/
theorem Stores.putSlot (hs : w₀.Stores h r c log w) (hname : name ∈ c.slotNames)
    (hwritable : h.descriptor.IsWritable name) (hv : w₀.KnowsTargets → w.Knows v) :
    w₀.Stores h r c ((name, v) :: log) (w.putSlot ⟨r, name⟩ v) where
  plain := hs.plain.putSlot name v
  slots name' := by
    rw [Dictionary.get?_cons]
    by_cases heq : name = name'
    · subst heq
      obtain ⟨old, hold⟩ := Option.isSome_iff_exists.1 (hs.plain.slots name hname)
      have hsome : (w₀.slot? ⟨r, name⟩).isSome := by
        rw [← Option.isSome_map, ← hs.slots name, hold]
        rfl
      obtain ⟨old₀, hold₀⟩ := Option.isSome_iff_exists.1 hsome
      rw [slot?_putSlot hold v, hold₀]
      simp
    · rw [slot?_putSlot_of_ne (by simpa using Ne.symm heq), hs.slots name',
        if_neg (by simpa using heq)]
  writable := List.forall_mem_cons.2 ⟨hwritable, hs.writable⟩
  known htargets := List.forall_mem_cons.2
    ⟨(hv htargets).putSlot, fun e he => (hs.known htargets e he).putSlot⟩
  others r' o hne ho := by
    rw [World.putSlot, get?_changeFields, hs.others r' o hne ho, Option.map_some, if_neg hne.symm]
  rest := congrArg (fun u : World => { u with objects := (w.putSlot ⟨r, name⟩ v).objects }) hs.rest

/-- No value is accepted for what is final. -/
theorem Stores.get?_of_isFinal (hs : w₀.Stores h r c log w) {e : Descriptor.FieldEntry}
    (hfield : h.descriptor.field? name = some e) (hfinal : e.field.isFinal = true) :
    log.get? name = none := by
  rw [Dictionary.get?_eq_none_iff]
  intro hmem
  obtain ⟨e', he', rfl⟩ := List.mem_map.1 hmem
  obtain ⟨e'', hfield', hopen⟩ := hs.writable e' he'
  cases hfield.symm.trans hfield'
  cases hfinal.symm.trans hopen

/-- An exposed field reads as the value accepted last, or else as the one before. -/
theorem Stores.getProperty (hs : w₀.Stores h r c log w) (hh : h.ServesInstance r c)
    {e : Descriptor.FieldEntry} (hfield : h.descriptor.field? name = some e) :
    ∃ old, w₀.slot? ⟨r, name⟩ = some old ∧
      eng.getProperty h (.string name) w = eng.toScript ((log.get? name).getD old) w := by
  obtain ⟨v, hv⟩ := Option.isSome_iff_exists.1 (hs.plain.slots name (hh.mem_slotNames hfield).1)
  obtain ⟨old, hold, rfl⟩ := Option.map_eq_some_iff.1 ((hs.slots name).symm.trans hv)
  exact ⟨old, hold, Engine.getProperty_of_slot? hh hs.plain hfield hv⟩

end World

namespace FieldWrite

variable (hh : h.ServesInstance r c)
include hh

/-- A request leaves what the values accepted so far leave. -/
theorem stores_run (x : FieldWrite) (hs : w₀.Stores h r c log w)
    (hsetter : h.descriptor.setter? x.name = none) :
    w₀.Stores h r c (x.logged eng h w log) (Outcome.world (x.run eng h w)) := by
  have hadds := eng.within_toHost x.value w
  cases hvalue : eng.toHost x.value w with
  | error e w₁ =>
    rw [hvalue] at hadds
    have hrun : x.run eng h w = .error e w₁ := Run.bind_of_error hvalue
    simp only [logged, hrun]
    exact hs.addsObjects hadds
  | ok v w₁ =>
    rw [hvalue] at hadds
    have hs₁ : w₀.Stores h r c log w₁ := hs.addsObjects hadds
    by_cases hwritable : h.descriptor.IsWritable x.name
    · have hrun : x.run eng h w = .ok true (w₁.putSlot ⟨r, x.name⟩ v) :=
        (Run.bind_of_ok hvalue).trans (Engine.setNamed_of_isWritable hh hs₁.plain hwritable v)
      have hname : x.name ∈ c.slotNames := by
        obtain ⟨e, hfield, -⟩ := hwritable
        exact (hh.mem_slotNames hfield).1
      simp only [logged, hrun, hvalue]
      exact hs₁.putSlot hname hwritable fun htargets =>
        Engine.knows_of_toHost (hs.knowsTargets htargets) hvalue
    · have hrun : x.run eng h w = .ok false w₁ := (Run.bind_of_ok hvalue).trans
        (Engine.setNamed_of_not_isWritable hh hs₁.plain hwritable hsetter v)
      simp only [logged, hrun]
      exact hs₁

/-- So does any number of requests. -/
theorem stores_runAll {xs : List FieldWrite} {log' : Dictionary String Value} {w' : World}
    (hs : w₀.Stores h r c log w) (hsetters : ∀ x ∈ xs, h.descriptor.setter? x.name = none)
    (hrun : runAll eng h xs w log = (w', log')) : w₀.Stores h r c log' w' := by
  induction xs generalizing w log with
  | nil =>
    cases hrun
    exact hs
  | cons x xs ih =>
    obtain ⟨hsetter, hsetters⟩ := List.forall_mem_cons.1 hsetters
    exact ih (stores_run hh x hs hsetter) hsetters hrun

end FieldWrite

end Stores

/-- A plain object is a store of its public fields. Take any instance of any class that has no
storage of its own, and let scripts write properties of any names and values through a proxy, as
long as no setter answers for the names. Every exposed field has a slot in the object, as in a fresh
instance, and reads as the value that was accepted last under its name, or else as the value it had;
if the engine lets every value cross and no value refers to a missing object, there is always an
answer. Slots of other names, and all other objects and static fields, are as they were. A request
fails just if its value does not cross, and otherwise it is accepted just if the name is that of an
exposed field that is not final: so what is final never changes, and names that are not exposed are
declined. -/
theorem public_fields_store (eng : Engine) {h : Handler} {config : Config} {r : Ref .object}
    {o : Object} {w w' : World} {xs : List FieldWrite} {log : Dictionary String Value}
    (ho : w.objects.get? r = some o) (hinstance : o.IsInstance) (hplain : o.data = .plain)
    (htarget : h.target = .object r) (hd : h.descriptor = .build config o.cls false)
    (hsetters : ∀ x ∈ xs, h.descriptor.setter? x.name = none)
    (hrun : FieldWrite.runAll eng h xs w [] = (w', log)) :
    (∀ name e, h.descriptor.field? name = some e →
      (∀ data, (Object.new o.cls data).field? name = some .null) ∧
      (∃ old, o.field? name = some old ∧
        eng.getProperty h (.string name) w' = eng.toScript ((log.get? name).getD old) w') ∧
      (e.field.isFinal = true → log.get? name = none)) ∧
    (eng.Open → w.KnowsTargets → (∀ name v, o.field? name = some v → w.Knows v) →
      ∀ name, (h.descriptor.field? name).isSome →
        ∃ s w₁, eng.getProperty h (.string name) w' = .ok s w₁) ∧
    ((∀ name, w'.slot? ⟨r, name⟩ = (o.field? name).map fun old => (log.get? name).getD old) ∧
      (∀ r' o', r' ≠ r → w.objects.get? r' = some o' → w'.objects.get? r' = some o') ∧
      w'.statics = w.statics) ∧
    ∀ name value, h.descriptor.setter? name = none →
      (∀ e w₁, eng.setProperty h (.string name) value w' = .error e w₁ ↔
        eng.toHost value w' = .error e w₁) ∧
      ∀ b w₁, eng.setProperty h (.string name) value w' = .ok b w₁ →
        (b = true ↔ h.descriptor.IsWritable name) := by
  have hh : h.ServesInstance r o.cls := ⟨htarget, config, hd⟩
  have hslot (name : String) : w.slot? ⟨r, name⟩ = o.field? name := by
    rw [World.slot?, ho, Option.bind_some]
  have hholds : w.HoldsPlain r o.cls := by
    refine ⟨by simp [World.data?, World.object?, Value.object?, ho, hplain], fun name hname => ?_⟩
    rw [hslot]
    exact hinstance.isSome_field?_iff.2 hname
  have hs : w.Stores h r o.cls log w' :=
    FieldWrite.stores_runAll hh (World.stores_nil hholds) hsetters hrun
  refine ⟨fun name e hfield => ⟨fun data => ?_, ?_, hs.get?_of_isFinal hfield⟩,
    fun hopen htargets hvalues name hexposed => ?_, ⟨fun name => ?_, hs.others, by rw [hs.rest]⟩,
    fun name value => Engine.setProperty_of_holdsPlain hh hs.plain value⟩
  · rw [Object.field?_new, if_pos (hh.mem_slotNames hfield).1]
  · obtain ⟨old, hold, hget⟩ := hs.getProperty hh hfield
    exact ⟨old, (hslot name).symm.trans hold, hget⟩
  · obtain ⟨e, hfield⟩ := Option.isSome_iff_exists.1 hexposed
    obtain ⟨old, hold, hget⟩ := hs.getProperty hh hfield
    have hknown : w'.Knows ((log.get? name).getD old) := by
      cases hlogged : log.get? name with
      | none => exact hs.knows (hvalues name old ((hslot name).symm.trans hold))
      | some v => exact hs.known htargets (name, v) (Dictionary.mem_of_get? hlogged)
    rw [hget]
    exact Engine.toScript_eq_ok hopen hknown
  · rw [hs.slots, hslot]

/-- A class with a public field `x` and a final field `y`. -/
def withFinalField : Host.Class :=
  .extending ⟨Host.Library.firstSerial + 1, "Derived", none, none, none,
    [⟨"y", false, true, true⟩], []⟩ (withField true)

/-- Of the values written to the field `x` the last is read. The final field `y` stays null, and a
write to a name without a field changes nothing. -/
theorem public_fields_store_withFinalField :
    let h := onlyObjectHandler withFinalField
    let w := (FieldWrite.runAll (Engine.direct Config.standard) h
      [⟨"x", .integer 1⟩, ⟨"y", .integer 1⟩, ⟨"z", .null⟩, ⟨"x", .integer 2⟩]
      (World.ofObject withFinalField) []).1
    (Engine.direct Config.standard).getProperty h (.string "x") w = .ok (.integer 2) w ∧
      (Engine.direct Config.standard).getProperty h (.string "y") w = .ok .null w := by
  have hsetters : ∀ x ∈ [(⟨"x", .integer 1⟩ : FieldWrite), ⟨"y", .integer 1⟩, ⟨"z", .null⟩,
      ⟨"x", .integer 2⟩], (onlyObjectHandler withFinalField).descriptor.setter? x.name = none := by
    decide
  obtain ⟨hfields, -⟩ := public_fields_store (Engine.direct Config.standard)
    (h := onlyObjectHandler withFinalField) (w := World.ofObject withFinalField)
    rfl (Object.isInstance_new withFinalField .plain) rfl rfl rfl hsetters rfl
  obtain ⟨-, ⟨_, hx, hgetx⟩, -⟩ := hfields "x" ⟨⟨"x", false, true, false⟩, withField true⟩ rfl
  obtain ⟨-, ⟨_, hy, hgety⟩, -⟩ := hfields "y" ⟨⟨"y", false, true, true⟩, withFinalField⟩ rfl
  cases hx
  cases hy
  exact ⟨hgetx, hgety⟩

end Membrane
