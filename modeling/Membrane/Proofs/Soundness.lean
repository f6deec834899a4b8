import Membrane.Proofs.Kinds
import Membrane.Proofs.Requests

/-!
# Sound worlds

Two walks through the hierarchy of a class have to agree: one finds the shape by which an object is
given its storage when it is made, the other the shape by which a handler knows which prototype
functions its target has. The second may take place much later, and what it finds is kept in a
descriptor that is used for other objects of the class, too. In a sound world they agree: storage is
of the kind that the class of the object calls for, descriptors are what they would be if they were
built now, and so every handler, and every function that was given out, is right about its target.

## Main definitions

* `Host.Object.IsApt`: that the storage of an object is what its class calls for.
* `Prototype.Function.Suits`, `Handler.Suits`: functions and handlers that are right about a target.
* `World.Sound`: worlds in which storage is apt and handlers and functions suit their targets.
* `World.Continues`: that a world stays sound, and that objects keep their kind and functions stay.

## Main results

* `Run.continues_newObject`: objects of apt storage may be made.
* `World.continues_modify`, `World.continues_changeData`: changes of objects.
* `Engine.newHandler_cases`: the handlers that are made suit their targets.
-/

namespace Membrane

open Host (Data Object Shape Value)

/-! ### Apt storage -/

/-- The storage of an object is of the kind its class calls for: that of the shape declared nearest
or, for the instances of the class of classes, a reference to a class. -/
def Host.Object.IsApt (o : Object) : Prop :=
  o.data.kind = .ofShape o.cls.shape ∨
    o.cls = Host.Library.classes ∧ ∃ c, o.data.kind = .reference c

/-- A fresh instance of a class has apt storage, whatever its hierarchy declares. -/
theorem Host.Object.isApt_new (c : Host.Class) : (new c (.empty c.shape)).IsApt :=
  .inl (Data.kind_empty c.shape)

/-- The storage of an object whose class declares more than fields is of the shape declared. -/
theorem Host.Object.IsApt.kind_eq {o : Object} (h : o.IsApt) (hshape : o.cls.shape ≠ .plain) :
    o.data.kind = .ofShape o.cls.shape := by
  refine h.resolve_right fun ⟨hcls, _⟩ => hshape ?_
  rw [hcls]
  rfl

/-! ### What suits a target -/

namespace Prototype

/-- A function finds the storage in its target that it is for. -/
def Function.Suits (f : Function) (w : World) (target : Value) : Prop :=
  match f with
  | ofList _ => (w.list? target).isSome
  | ofSet _ => (w.set? target).isSome
  | ofWrapper _ => True

/-- What suits a target keeps suiting it. -/
theorem Function.Suits.later {f : Function} {w w' : World} {target : Value}
    (h : f.Suits w target) (hkinds : w.KeepsKinds w') : f.Suits w' target := by
  cases f with
  | ofList f => exact hkinds.list?_isSome h
  | ofSet f => exact hkinds.set?_isSome h
  | ofWrapper f => trivial

/-- Functions of lists are given to values of the shape of lists, and functions of sets to those of
the shape of sets. -/
theorem shape_of_find? {shape : Shape} {primitive : Option Host.Primitive} {name : String}
    {f : Function} (h : find? shape primitive name = some f) :
    match f with
    | .ofList _ => shape = .list
    | .ofSet _ => shape = .set
    | .ofWrapper _ => True := by
  cases shape with
  | list =>
    obtain ⟨g, -, rfl⟩ := Option.map_eq_some_iff.1 h
    rfl
  | set =>
    obtain ⟨g, -, rfl⟩ := Option.map_eq_some_iff.1 h
    rfl
  | plain =>
    obtain ⟨p, -, h⟩ := Option.bind_eq_some_iff.1 h
    obtain ⟨g, -, rfl⟩ := Option.map_eq_some_iff.1 h
    trivial
  | map | array => cases h

end Prototype

/-- The prototype functions that a handler gives suit its target. -/
def Handler.Suits (h : Handler) (w : World) : Prop :=
  ∀ name f, h.prototype? name = some f → f.Suits w h.target

theorem Handler.Suits.later {h : Handler} {w w' : World} (hsuits : h.Suits w)
    (hkinds : w.KeepsKinds w') : h.Suits w' :=
  fun name f hf => (hsuits name f hf).later hkinds

/-- A callable that is a prototype function suits its target. -/
def Callable.Suits (k : Callable) (w : World) : Prop :=
  ∀ f target, k = .prototype f target → f.Suits w target

theorem Callable.Suits.later {k : Callable} {w w' : World} (h : k.Suits w)
    (hkinds : w.KeepsKinds w') : k.Suits w' :=
  fun f target hk => (h f target hk).later hkinds

/-! ### Sound worlds -/

/-- The descriptors are what they would be if they were built now. -/
def Descriptor.AreBuilt (config : Config) (ds : List Descriptor) : Prop :=
  ∀ d ∈ ds, d = .build config d.target d.isStatic

/-- The storage of all objects is apt, the descriptors that were kept are right, and handlers and
callables suit their targets. -/
structure World.Sound (config : Config) (w : World) : Prop where
  /-- The objects. -/
  objects : ∀ r o, w.objects.get? r = some o → o.IsApt
  /-- The descriptors that were kept. -/
  descriptors : Descriptor.AreBuilt config w.descriptors
  /-- The handlers. -/
  handlers : ∀ r h, w.handlers.get? r = some h → h.Suits w
  /-- The callables. -/
  functions : ∀ r k, w.functions.get? r = some k → k.Suits w

/-- A world without anything in it is sound. -/
theorem World.sound_empty (config : Config) : World.Sound config {} where
  objects _ _ h := by cases h
  descriptors _ h := by cases h
  handlers _ _ h := by cases h
  functions _ _ h := by cases h

/-- A world stays sound, its objects keep their class and the kind of their storage, and its
callables stay what they are. -/
structure World.Continues (config : Config) (w w' : World) : Prop where
  /-- It is sound if it was. -/
  sound : w.Sound config → w'.Sound config
  /-- The objects. -/
  kinds : w.KeepsKinds w'
  /-- The callables. -/
  functions : ∀ r k, w.functions.get? r = some k → w'.functions.get? r = some k

instance (config : Config) : IsPreorder World (World.Continues config) where
  refl w := ⟨id, refl w, fun _ _ h => h⟩
  trans w w₁ w₂ h h' :=
    ⟨fun hw => h'.sound (h.sound hw), IsTrans.trans w w₁ w₂ h.kinds h'.kinds,
      fun r k hk => h'.functions r k (h.functions r k hk)⟩

namespace World

variable {config : Config} {w w' : World}

/-- The objects, descriptors, handlers and callables are all that matters. -/
theorem Continues.of_eq (hobjects : w'.objects = w.objects)
    (hdescriptors : w'.descriptors = w.descriptors) (hhandlers : w'.handlers = w.handlers)
    (hfunctions : w'.functions = w.functions) : w.Continues config w' := by
  have hkinds : w.KeepsKinds w' := .of_objects_eq hobjects
  refine ⟨fun hw => ⟨?_, ?_, ?_, ?_⟩, hkinds, fun r k hk => by rwa [hfunctions]⟩
  · rw [hobjects]
    exact hw.objects
  · rw [hdescriptors]
    exact hw.descriptors
  · rw [hhandlers]
    exact fun r h hr => (hw.handlers r h hr).later hkinds
  · rw [hfunctions]
    exact fun r k hr => (hw.functions r k hr).later hkinds

/-- Objects may be replaced by others of the same class and kind of storage, and apt ones may be
added. -/
theorem Continues.of_kinds {objects : Store .object Object}
    (hkinds : w.KeepsKinds { w with objects := objects })
    (hobjects : ∀ r o', objects.get? r = some o' →
      (∃ o, w.objects.get? r = some o ∧ o'.cls = o.cls ∧ o'.data.kind = o.data.kind) ∨ o'.IsApt) :
    w.Continues config { w with objects := objects } where
  kinds := hkinds
  functions _ _ h := h
  sound hw :=
    { descriptors := hw.descriptors
      handlers := fun r h hr => (hw.handlers r h hr).later hkinds
      functions := fun r k hr => (hw.functions r k hr).later hkinds
      objects := fun r o' ho' => by
        obtain ⟨o, ho, hcls, hkind⟩ | hapt := hobjects r o' ho'
        · have hapt := hw.objects r o ho
          unfold Object.IsApt
          rwa [hcls, hkind]
        · exact hapt }

/-- An object may be changed as long as its class and the kind of its storage stay. -/
theorem continues_modify {r : Ref .object} {change : Object → Object}
    (h : ∀ o, w.objects.get? r = some o →
      (change o).cls = o.cls ∧ (change o).data.kind = o.data.kind) :
    w.Continues config { w with objects := w.objects.modify r change } := by
  refine .of_kinds (keepsKinds_modify h) fun r' o' ho' => .inl ?_
  by_cases hr : r = r'
  · subst hr
    rw [Store.get?_modify_self] at ho'
    obtain ⟨o, ho, rfl⟩ := Option.map_eq_some_iff.1 ho'
    exact ⟨o, ho, h o ho⟩
  · rw [Store.get?_modify_of_ne _ _ hr] at ho'
    exact ⟨o', ho', rfl, rfl⟩

/-- Storage may be changed as long as its kind stays. -/
theorem continues_changeData (w : World) (v : Value) {change : Data → Data}
    (h : ∀ data, w.data? v = some data → (change data).kind = data.kind) :
    w.Continues config (w.changeData v change) := by
  cases v with
  | object r =>
    refine continues_modify fun o ho => ⟨rfl, h o.data ?_⟩
    simp [data?, object?, Value.object?, ho]
  | _ => exact refl w

theorem continues_setField (w : World) (v : Value) (name : String) (u : Value) :
    w.Continues config (w.setField v name u).2 := by
  unfold setField
  split
  · split
    · exact continues_modify fun _ _ => ⟨rfl, rfl⟩
    · exact refl w
  · exact refl w

/-- A callable may be made if it suits its target. -/
theorem continues_alloc {k : Callable} (hk : k.Suits w) :
    w.Continues config { w with functions := w.functions.alloc k } where
  kinds := .of_objects_eq rfl
  functions _ _ h := Store.get?_alloc_of_some k h
  sound hw :=
    { objects := hw.objects
      descriptors := hw.descriptors
      handlers := hw.handlers
      functions := fun r k' hk' => by
        obtain hold | rfl := Store.get?_or_eq_of_alloc hk'
        · exact hw.functions r k' hold
        · exact hk }

/-- What a handler keeps for itself may change. -/
theorem continues_modify_handler {r : Ref .handler} {change : Handler → Handler}
    (h : ∀ h, (change h).target = h.target ∧ (change h).descriptor = h.descriptor) :
    w.Continues config { w with handlers := w.handlers.modify r change } where
  kinds := .of_objects_eq rfl
  functions _ _ h := h
  sound hw :=
    { objects := hw.objects
      descriptors := hw.descriptors
      functions := hw.functions
      handlers := fun r' h' hh' => by
        by_cases hr : r = r'
        · subst hr
          rw [Store.get?_modify_self] at hh'
          obtain ⟨h₀, hh₀, rfl⟩ := Option.map_eq_some_iff.1 hh'
          intro name f hf
          rw [Handler.prototype?, (h h₀).2] at hf
          rw [(h h₀).1]
          exact hw.handlers r h₀ hh₀ name f hf
        · rw [Store.get?_modify_of_ne _ _ hr] at hh'
          exact hw.handlers r' h' hh' }

end World

/-! ### Making things -/

namespace Run

variable {config : Config}

/-- An object of apt storage may be made. -/
theorem continues_newObject {o : Object} (ho : o.IsApt) :
    (Run.newObject o).Within (World.Continues config) := by
  intro w
  refine .of_kinds (fun r o' ho' => ⟨o', Store.get?_alloc_of_some o ho', rfl, rfl⟩)
    fun r o' ho' => ?_
  obtain hold | rfl := Store.get?_or_eq_of_alloc ho'
  · exact .inl ⟨o', hold, rfl, rfl⟩
  · exact .inr ho

theorem continues_newList (items : List Value) :
    (Run.newList items).Within (World.Continues config) :=
  continues_newObject (.inl rfl)

theorem continues_newSet (values : List Value) :
    (Run.newSet values).Within (World.Continues config) :=
  continues_newObject (.inl rfl)

theorem continues_newMap (entries : List (Value × Value)) :
    (Run.newMap entries).Within (World.Continues config) :=
  continues_newObject (.inl rfl)

theorem continues_newArray (c : Host.Component) (items : List Value) :
    (Run.newArray c items).Within (World.Continues config) :=
  continues_newObject (.inl rfl)

theorem continues_newClassRef (c : Host.Class) :
    (Run.newClassRef c).Within (World.Continues config) :=
  continues_newObject (.inr ⟨rfl, c, rfl⟩)

theorem continues_newScriptArray (items : List Script.Value) :
    (Run.newScriptArray items).Within (World.Continues config) :=
  fun _ => .of_eq rfl rfl rfl rfl

theorem continues_newRecord (properties : List (Script.Key × Script.Value)) :
    (Run.newRecord properties).Within (World.Continues config) :=
  fun _ => .of_eq rfl rfl rfl rfl

/-- A callable that is no prototype function may be made. -/
theorem continues_newFunction {k : Callable} (hk : k.isPrototype = false) :
    (Run.newFunction k).Within (World.Continues config) := by
  refine fun w => World.continues_alloc fun f target heq => ?_
  rw [heq] at hk
  cases hk

theorem continues_newIterator (target : Value) (kind : IterationKind) :
    (Run.newIterator target kind).Within (World.Continues config) := by
  intro w
  unfold Run.newIterator
  rw [get_bind]
  have hrest (state : Ref .iterator) : (do
      let next ← Run.newFunction (.next state)
      let itself ← Run.newFunction .itself
      Run.newRecord [(.string "next", next), (.symbol .iterator, itself)]).Within
        (World.Continues config) :=
    .bind (continues_newFunction rfl) fun _ => .bind (continues_newFunction rfl) fun _ =>
      continues_newRecord _
  have hstart : w.Continues config
      { w with iterators := w.iterators.alloc (w.iteratorItems target kind) } :=
    .of_eq rfl rfl rfl rfl
  exact IsTrans.trans _ _ _ hstart (hrest w.iterators.next _)

theorem continues_uniqueKeys (r : Ref .handler) :
    (Run.uniqueKeys r).Within (World.Continues config) := by
  refine .bind .get fun w => ?_
  split
  · exact .pure _
  · next h _ =>
    split
    · exact .pure _
    · exact .bind (Run.Within.holdsOfParts.capturedKeys (.throw _) h) fun keys =>
        .bind (fun _ => World.continues_modify_handler fun _ => ⟨rfl, rfl⟩) fun _ => .pure _

/-- The callables of traps may be made. -/
theorem continues_trapFunctions (r : Ref .handler) :
    (Run.trapFunctions r).Within (World.Continues config) := by
  have hmake (w : World) : ∀ traps : List Trap,
      w.Continues config { w with
        functions := traps.foldl (fun s t => s.alloc (.trap r t)) w.functions } := by
    intro traps
    induction traps generalizing w with
    | nil => exact refl w
    | cons t traps ih =>
      have hfirst : w.Continues config { w with functions := w.functions.alloc (.trap r t) } :=
        World.continues_alloc fun _ _ heq => by cases heq
      exact IsTrans.trans _ _ _ hfirst (ih { w with functions := w.functions.alloc (.trap r t) })
  intro w
  unfold Run.trapFunctions
  rw [get_bind]
  cases (w.handlers.get? r).bind Handler.traps with
  | some traps => exact refl w
  | none =>
    refine IsTrans.trans _ _ _ (hmake w Trap.all) (World.continues_modify_handler ?_)
    exact fun _ => ⟨rfl, rfl⟩

end Run

/-! ### Handlers -/

namespace Engine

variable {eng : Engine} {w : World} {target : Value}

/-- Where the descriptors that were kept are right, one that was kept is what would be built. -/
theorem describe_of_areBuilt (hbuilt : Descriptor.AreBuilt eng.config w.descriptors)
    (c : Host.Class) (isStatic : Bool) :
    ∃ ds, eng.describe c isStatic w =
        .ok (.build eng.config c isStatic) { w with descriptors := ds } ∧
      Descriptor.AreBuilt eng.config ds := by
  unfold describe
  rw [Run.get_bind]
  cases hfound : w.descriptors.find? fun d => d.isStatic == isStatic && decide (d.target = c) with
  | some d =>
    have hd := hbuilt d (List.mem_of_find?_eq_some hfound)
    have hmatches := List.find?_some hfound
    simp only [Bool.and_eq_true, beq_iff_eq, decide_eq_true_eq] at hmatches
    rw [hmatches.1, hmatches.2] at hd
    refine ⟨w.descriptors, ?_, hbuilt⟩
    rw [← hd]
    rfl
  | none =>
    refine ⟨.build eng.config c isStatic :: w.descriptors, rfl, fun d hd => ?_⟩
    obtain rfl | hd := List.mem_cons.1 hd
    · rfl
    · exact hbuilt d hd

/-- A value that has a class is an object of it, or the class has no shape of its own. -/
theorem class?_cases {c : Host.Class} (hclass : w.class? target = some c) :
    (∃ r o, target = .object r ∧ w.objects.get? r = some o ∧ o.cls = c) ∨ c.shape = .plain := by
  have hprimitive (p : Host.Primitive) (hp : some (Host.Library.wrapper p) = some c) :
      c.shape = .plain := by
    cases hp
    rfl
  cases target with
  | object r =>
    obtain ⟨o, ho, hcls⟩ := Option.map_eq_some_iff.1 hclass
    exact .inl ⟨r, o, rfl, ho, hcls⟩
  | null | script _ => cases hclass
  | _ => exact .inr (hprimitive _ hclass)

/-- What the descriptor of an object's class says of prototype functions suits the object. -/
theorem suits_build (hw : w.Sound eng.config) {c : Host.Class} (hclass : w.class? target = some c)
    {name : String} {f : Prototype.Function}
    (hf : Prototype.find? c.shape c.own.primitive name = some f) : f.Suits w target := by
  -- Primitives are of plain classes, so it is an object if the function is one of lists or sets.
  have hkind (hshape : c.shape ≠ .plain) :
      ∃ data, w.data? target = some data ∧ data.kind = .ofShape c.shape := by
    obtain ⟨r, o, rfl, ho, rfl⟩ | hplain := class?_cases hclass
    · refine ⟨o.data, ?_, (hw.objects r o ho).kind_eq hshape⟩
      simp [World.data?, World.object?, Value.object?, ho]
    · exact absurd hplain hshape
  have hshape := Prototype.shape_of_find? hf
  cases f with
  | ofList f =>
    obtain ⟨data, hdata, hdk⟩ := hkind (by rw [hshape]; decide)
    rw [hshape] at hdk
    obtain ⟨items, rfl⟩ := Data.kind_eq_list_iff.1 hdk
    exact Option.isSome_of_eq_some (World.list?_eq_some_iff.2 hdata)
  | ofSet f =>
    obtain ⟨data, hdata, hdk⟩ := hkind (by rw [hshape]; decide)
    rw [hshape] at hdk
    obtain ⟨members, rfl⟩ := Data.kind_eq_set_iff.1 hdk
    exact Option.isSome_of_eq_some (World.set?_eq_some_iff.2 hdata)
  | ofWrapper f => trivial

/-- In a sound world a value cannot be described, or is given a descriptor that suits it. -/
theorem descriptorOf_cases (hw : w.Sound eng.config) (target : Value) :
    eng.descriptorOf target w = .error (w.haltAbout target .indescribable) w ∨
    ∃ d ds, eng.descriptorOf target w = .ok d { w with descriptors := ds } ∧
      Descriptor.AreBuilt eng.config ds ∧ Handler.Suits ⟨target, d, none, none⟩ w := by
  unfold descriptorOf
  rw [Run.get_bind]
  cases hreference : w.classRef? target with
  | some c =>
    obtain ⟨ds, hdescribe, hds⟩ := describe_of_areBuilt hw.descriptors c true
    refine .inr ⟨_, ds, hdescribe, hds, fun name f hf => ?_⟩
    cases hf
  | none =>
    cases hclass : w.class? target with
    | some c =>
      obtain ⟨ds, hdescribe, hds⟩ := describe_of_areBuilt hw.descriptors c false
      exact .inr ⟨_, ds, hdescribe, hds, fun name f hf => suits_build hw hclass hf⟩
    | none => exact .inl rfl

/-- In a sound world a handler that is made suits its target. -/
theorem newHandler_cases (hw : w.Sound eng.config) (target : Value) :
    (∃ e, (e = .fault .nullTarget ∨ e = w.haltAbout target .indescribable) ∧
      eng.newHandler target w = .error e w) ∨
    ∃ r w', eng.newHandler target w = .ok r w' ∧ w.Continues eng.config w' := by
  unfold newHandler
  cases target.isNull with
  | true => exact .inl ⟨_, .inl rfl, rfl⟩
  | false =>
    obtain herror | ⟨d, ds, hd, hds, hsuits⟩ := descriptorOf_cases hw target
    · exact .inl ⟨_, .inr rfl, Run.bind_of_error herror⟩
    · refine .inr ⟨_, _, Run.bind_of_ok hd, ⟨fun _ => ?_, .of_objects_eq rfl, fun _ _ h => h⟩⟩
      refine ⟨hw.objects, hds, fun r h hr => ?_, hw.functions⟩
      obtain hold | rfl := Store.get?_or_eq_of_alloc hr
      · exact hw.handlers r h hold
      · exact hsuits

end Engine

end Membrane
