import Membrane.Proofs.Describing
import Membrane.Proofs.Reading
import Membrane.Proofs.Sparing

/-!
# Static fields

A static field belongs to the class that declares it. A reference to a class shows the nearest
public declaration of a name, and what is read and written through the reference is the variable of
the class that makes the declaration. Nothing else that is asked of a handler reads or writes static
fields; a handler of anything but a reference to a class does so in no case.

## Main definitions

* `Host.Class.nearestStatic?`: the nearest public declaration of a static field.
* `World.LeavesStatics`: worlds that differ in no static field.
* `Run.IgnoresStatics`: a computation that neither reads nor writes static fields.
* `Engine.DecidesWithoutStatics`: an engine whose decisions do not depend on them.

## Main results

* `Descriptor.field?_build_static`: references to a class show the nearest declarations.
* `Engine.getProperty_of_nearestStatic`, `Engine.setProperty_of_nearestStatic`: what is read and
  written through a reference.
* `Handler.ignoresStatics_writes`: handlers that show no static field.
-/

namespace Membrane

open Host (Data Field Value)

/-! ### Declarations -/

/-- The first public static field of a name that the class itself declares. -/
def Host.Class.ownStatic? (c : Host.Class) (name : String) : Option Field :=
  c.own.fields.find? fun f => f.isPublic && f.isStatic && f.name == name

/-- The first public static field of a name on the way from a class to the root, with the class that
declares it. -/
def Host.Class.nearestStatic? (c : Host.Class) (name : String) : Option Descriptor.FieldEntry :=
  c.hierarchy.findSome? fun owner => (owner.ownStatic? name).map (⟨·, owner⟩)

namespace Host.Class

variable {c : Host.Class} {name : String} {e : Descriptor.FieldEntry}

/-- The field that is found is the one its owner declares. -/
theorem ownStatic?_of_nearestStatic? (h : c.nearestStatic? name = some e) :
    e.owner.ownStatic? name = some e.field := by
  obtain ⟨owner, -, hfound⟩ := List.exists_of_findSome?_eq_some h
  obtain ⟨f, hf, rfl⟩ := Option.map_eq_some_iff.1 hfound
  exact hf

theorem isStatic_of_nearestStatic? (h : c.nearestStatic? name = some e) :
    e.field.isStatic = true ∧ e.field.name = name := by
  have hfound := List.find?_some (ownStatic?_of_nearestStatic? h)
  simp only [Bool.and_eq_true, beq_iff_eq] at hfound
  exact ⟨hfound.1.2, hfound.2⟩

end Host.Class

namespace Descriptor

/-- References to a class show the nearest public declaration of each static field and no other
field. -/
theorem field?_build_static (config : Config) (c : Host.Class) (name : String) :
    (build config c true).field? name = c.nearestStatic? name := by
  have hclasses : Host.Library.classes.hierarchy.flatMap (fieldsOf false) = [] := rfl
  rw [field?_build, fieldSequence, if_pos rfl, hclasses, List.append_nil, List.find?_flatMap]
  refine congrArg (List.findSome? · c.hierarchy) (funext fun owner => ?_)
  rw [fieldsOf, List.find?_map, List.find?_filter, Host.Class.ownStatic?]
  congr 2
  funext f
  simp [beq_eq_decide]

/-- Handlers of instances show no static fields. -/
theorem isStatic_of_field?_instance {config : Config} {c : Host.Class} {name : String}
    {e : FieldEntry} (h : (build config c false).field? name = some e) :
    e.field.isStatic = false := by
  rw [field?_build] at h
  exact (mem_fieldSequence_instance.1 (List.mem_of_find?_eq_some h)).2.2.2

end Descriptor

/-! ### Requests through a reference -/

section Reference

variable {eng : Engine} {h : Handler} {c : Host.Class} {w w₁ : World} {name : String}
  {e : Descriptor.FieldEntry} {v : Value} {property value : Script.Value}

/-- The handler of a reference shows the class it refers to. -/
theorem Handler.Shows.descriptor_of_classRef? {config : Config} (hshows : h.Shows config w)
    (hclass : w.classRef? h.target = some c) : h.descriptor = .build config c true := by
  obtain ⟨c', isStatic, hdescribed, hbuilt⟩ := hshows.descriptor
  rw [World.described?, hclass] at hdescribed
  cases hdescribed
  exact hbuilt

theorem Handler.Shows.field?_of_classRef? {config : Config} (hshows : h.Shows config w)
    (hclass : w.classRef? h.target = some c) (name : String) :
    h.descriptor.field? name = c.nearestStatic? name := by
  rw [hshows.descriptor_of_classRef? hclass, Descriptor.field?_build_static]

/-- All other handlers show no static fields. -/
theorem Handler.Shows.isStatic_of_field? {config : Config} (hshows : h.Shows config w)
    (hclass : w.classRef? h.target = none) (hfield : h.descriptor.field? name = some e) :
    e.field.isStatic = false := by
  obtain ⟨c', isStatic, hdescribed, hbuilt⟩ := hshows.descriptor
  rw [World.described?, hclass] at hdescribed
  obtain ⟨c, -, hc⟩ := Option.map_eq_some_iff.1 hdescribed
  cases hc
  rw [hbuilt] at hfield
  exact Descriptor.isStatic_of_field?_instance hfield

/-- A reference to a class has no elements. -/
theorem World.not_showsElement_of_classRef? (hclass : w.classRef? v = some c) (name : String) :
    ¬w.ShowsElement v name := by
  have hdata := World.classRef?_eq_some_iff.1 hclass
  rintro (hshows | ⟨-, hshows⟩)
  · simp [World.element?, hdata] at hshows
  · simp [World.array?, hdata] at hshows

/-- What is read through a reference is the variable of the class that makes the nearest
declaration. -/
theorem Engine.getProperty_of_nearestStatic {config : Config} (hshows : h.Shows config w)
    (hclass : w.classRef? h.target = some c) (hnearest : c.nearestStatic? name = some e) :
    eng.getProperty h (.string name) w =
      eng.toScript ((w.static? e.owner name).getD .null) w := by
  obtain ⟨hstatic, hname⟩ := Host.Class.isStatic_of_nearestStatic? hnearest
  have hread : w.readField e h.target = (w.static? e.owner name).getD .null := by
    rw [World.readField, if_pos hstatic, hname]
  rw [getProperty_of_field? (World.not_showsElement_of_classRef? hclass name)
    ((hshows.field?_of_classRef? hclass name).trans hnearest), hread]

/-- A reference to a class has no elements to write. -/
theorem Run.setElement_of_classRef? (hclass : w.classRef? h.target = some c) (name : String)
    (v : Value) : Run.setElement h.target name v w = .ok false w := by
  rw [Run.setElement_eq, World.elementWrite?, World.classRef?_eq_some_iff.1 hclass]
  rfl

/-- A value that crosses leaves a reference and what its handler shows as they are. -/
theorem Engine.shows_of_toHost (hshows : h.Shows eng.config w)
    (hclass : w.classRef? h.target = some c) (hvalue : eng.toHost value w = .ok v w₁) :
    h.Shows eng.config w₁ ∧ w₁.classRef? h.target = some c := by
  have hkinds := ((eng.keepsShown_toHost value).rel_of_ok hvalue).kinds
  have hadds := (eng.within_toHost value).rel_of_ok hvalue
  exact ⟨hshows.later hkinds,
    World.classRef?_eq_some_iff.2 (hadds.data? (World.classRef?_eq_some_iff.1 hclass))⟩

/-- What is written through a reference is that variable, unless it is final. -/
theorem Engine.setProperty_of_nearestStatic (hshows : h.Shows eng.config w)
    (hclass : w.classRef? h.target = some c) (hname : property.propertyName? = some name)
    (hnearest : c.nearestStatic? name = some e) (hfinal : e.field.isFinal = false)
    (hvalue : eng.toHost value w = .ok v w₁) :
    eng.setProperty h property value w = .ok true (w₁.putStatic e.owner name v) := by
  obtain ⟨hshows₁, hclass₁⟩ := shows_of_toHost hshows hclass hvalue
  obtain ⟨hstatic, hfield⟩ := Host.Class.isStatic_of_nearestStatic? hnearest
  have hwrite : Run.writeField e h.target v w₁ = .ok true (w₁.putStatic e.owner name v) := by
    unfold Run.writeField
    rw [hfinal, hstatic, hfield]
    rfl
  have hnamed : eng.setNamed h name v w₁ = .ok true (w₁.putStatic e.owner name v) := by
    refine (Run.bind_of_ok (Run.setElement_of_classRef? hclass₁ name v)).trans ?_
    simp only [hshows₁.field?_of_classRef? hclass₁ name, hnearest]
    exact Run.bind_of_ok hwrite
  unfold setProperty
  rw [hname]
  exact (Run.bind_of_ok hvalue).trans hnamed

/-- All other writes are left to a setter. -/
theorem Engine.setProperty_of_not_nearestStatic (hshows : h.Shows eng.config w)
    (hclass : w.classRef? h.target = some c) (hname : property.propertyName? = some name)
    (hfinal : ∀ e, c.nearestStatic? name = some e → e.field.isFinal = true)
    (hvalue : eng.toHost value w = .ok v w₁) :
    eng.setProperty h property value w = eng.setAccessor h name v w₁ := by
  obtain ⟨hshows₁, hclass₁⟩ := shows_of_toHost hshows hclass hvalue
  have hdeclines : w₁.Declines h name v := by
    refine ⟨Run.setElement_of_classRef? hclass₁ name v, fun e hfield => ?_⟩
    rw [hshows₁.field?_of_classRef? hclass₁ name] at hfield
    unfold Run.writeField
    rw [hfinal e hfield]
    rfl
  unfold setProperty
  rw [hname]
  exact (Run.bind_of_ok hvalue).trans (setNamed_of_declines hdeclines)

end Reference

/-! ### Requests that leave static fields alone -/

/-- Handlers go on to show what they should, and no static field differs. -/
structure World.LeavesStatics (config : Config) (w w' : World) : Prop where
  /-- What handlers show. -/
  shown : w.KeepsShown config w'
  /-- The static fields. -/
  statics : w'.statics = w.statics

instance (config : Config) : IsPreorder World (World.LeavesStatics config) where
  refl w := ⟨refl w, rfl⟩
  trans w w₁ w₂ h h' :=
    ⟨IsTrans.trans w w₁ w₂ h.shown h'.shown, h'.statics.trans h.statics⟩

section Leaving

variable {eng : Engine} {h : Handler} {config : Config}

namespace Run

/-- A computation leaves static fields alone if it does so whatever it does to handlers. -/
theorem leavesStatics_of {α : Type} {x : Run α} (hshown : x.Within (World.KeepsShown config))
    (hstatics : ∀ w, (Outcome.world (x w)).statics = w.statics) :
    x.Within (World.LeavesStatics config) :=
  fun w => ⟨hshown w, hstatics w⟩

theorem statics_answerChange (w : World) (target : Value) (change? : Option (Data → Data)) :
    (w.answerChange target change?).world.statics = w.statics := by
  cases change? with
  | none => rfl
  | some change =>
    change (w.changeData target change).statics = w.statics
    rw [World.rest_changeData]

end Run

/-- To make a handler leaves static fields alone. -/
theorem Engine.leavesStatics_newHandler (eng : Engine) (target : Value) :
    (eng.newHandler target).Within (World.LeavesStatics eng.config) :=
  Run.leavesStatics_of (eng.keepsShown_newHandler target) fun w => by
    rw [(eng.within_newHandler target w).rest]

theorem Engine.leavesStatics_toHost (eng : Engine) (v : Script.Value) :
    (eng.toHost v).Within (World.LeavesStatics eng.config) :=
  Run.leavesStatics_of (eng.keepsShown_toHost v) fun w => by rw [(eng.within_toHost v w).rest]

/-- To look at a target leaves static fields alone. -/
theorem Handler.leavesStatics_reads (eng : Engine) (h : Handler) :
    h.HoldsOfReads eng fun _ x => x.Within (World.LeavesStatics eng.config) where
  toHoldsOfParts := Run.Within.holdsOfParts
  exhausted := .throw _
  readField _ _ _ hf := .bind .get fun _ => hf _
  readPrototype _ := Run.Within.holdsOfParts.readPrototype (.throw _) .raise
    (fun c => Run.leavesStatics_of (Run.keepsShown_newFunction c) fun _ => rfl) _ _
  toScript v := eng.within_toScript_of eng.leavesStatics_newHandler v
  toHost := eng.leavesStatics_toHost
  newFunction {c} _ := Run.leavesStatics_of (Run.keepsShown_newFunction c) fun _ => rfl
  uniqueKeys r := Run.leavesStatics_of (Run.keepsShown_uniqueKeys r) fun w =>
    Run.within_uniqueKeys (R := fun w w' => w'.statics = w.statics) (fun _ _ => rfl) r w

/-- What handlers without static fields do leaves static fields alone. -/
theorem Handler.leavesStatics_writes
    (hfields : ∀ name e, h.descriptor.field? name = some e → e.field.isStatic = false) :
    h.HoldsOfWrites eng fun _ x => x.Within (World.LeavesStatics eng.config) where
  toHoldsOfReads := h.leavesStatics_reads eng
  setElement name v :=
    Run.leavesStatics_of (World.allowsWrites_keepsShown.setElement h.target name v) fun w => by
      rw [Run.setElement_eq, Run.statics_answerChange]
  writeField {name e} hentry v :=
    Run.leavesStatics_of (World.allowsWrites_keepsShown.writeField e h.target v) fun w => by
      unfold Run.writeField
      rw [hfields name e hentry]
      split
      · rfl
      · exact (congrArg World.statics (w.rest_setField h.target e.field.name v) :)
  deleteProperty property :=
    Run.leavesStatics_of (World.allowsWrites_keepsShown.deleteProperty h.target property)
      fun w => by rw [Run.deleteProperty_eq, Run.statics_answerChange]

end Leaving

/-! ### Computations that ignore static fields -/

/-- The world with other static fields. -/
def World.withStatics (w : World) (statics : Dictionary (Host.Class × String) Value) : World :=
  { w with statics := statics }

namespace World

variable {w : World} {statics : Dictionary (Host.Class × String) Value}

/-- The string form of a value does not depend on static fields. -/
theorem hostText?_withStatics (v : Value) (locked : List (Ref .object)) :
    (w.withStatics statics).hostText? v locked = w.hostText? v locked := by
  refine hostText?_congr (fun r => ?_) ?_ ?_ ?_ ?_ v locked <;> rfl

/-- To write a field of an object takes no static field. -/
theorem setField_withStatics (v : Value) (name : String) (value : Value) :
    (w.withStatics statics).setField v name value =
      ((w.setField v name value).1, (w.setField v name value).2.withStatics statics) := by
  cases v with
  | object r =>
    have hobjects : (w.withStatics statics).objects = w.objects := rfl
    unfold setField
    simp only [hobjects]
    split <;> rfl
  | _ => rfl

end World

/-- A computation neither reads nor writes static fields: with others it ends in the same way, in
the same world but for them. -/
def Run.IgnoresStatics {α : Type} (x : Run α) : Prop :=
  ∀ w statics, x (w.withStatics statics) = Outcome.mapWorld (·.withStatics statics) (x w)

/-- Which values may cross does not depend on static fields. -/
structure Engine.DecidesWithoutStatics (eng : Engine) : Prop where
  /-- Host values. -/
  refusesHost : ∀ w statics v, eng.refusesHost (w.withStatics statics) v = eng.refusesHost w v
  /-- Script values. -/
  refusesScript : ∀ w statics v, eng.refusesScript (w.withStatics statics) v = eng.refusesScript w v

theorem Engine.decidesWithoutStatics_direct (config : Config) :
    (Engine.direct config).DecidesWithoutStatics :=
  ⟨fun _ _ _ => rfl, fun _ _ _ => rfl⟩

namespace Run.IgnoresStatics

variable {α β : Type} {x : Run α}

theorem pure (a : α) : (Pure.pure a : Run α).IgnoresStatics := fun _ _ => rfl

theorem throw (e : Halt) : (MonadExcept.throw e : Run α).IgnoresStatics := fun _ _ => rfl

theorem raise (f : Fault) : (Run.raise f : Run α).IgnoresStatics := throw _

theorem bind {f : α → Run β} (hx : x.IgnoresStatics) (hf : ∀ a, (f a).IgnoresStatics) :
    (x >>= f).IgnoresStatics := by
  intro w statics
  have hfirst := hx w statics
  cases hw : x w with
  | ok a w₁ =>
    rw [hw] at hfirst
    rw [bind_of_ok hw, bind_of_ok hfirst]
    exact hf a w₁ statics
  | error e w₁ =>
    rw [hw] at hfirst
    rw [bind_of_error hw, bind_of_error hfirst]
    rfl

/-- What is read of a world does not depend on static fields. -/
theorem get_bind {f : World → Run α} (hf : ∀ w, (f w).IgnoresStatics)
    (hsame : ∀ w statics, f (w.withStatics statics) = f w) :
    (MonadState.get >>= f).IgnoresStatics := by
  intro w statics
  change f (w.withStatics statics) (w.withStatics statics) = _
  rw [hsame]
  exact hf w w statics

theorem holdsOfParts : HoldsOfParts fun _ x => x.IgnoresStatics where
  pure := .pure
  bind := .bind
  look hf hsame := .get_bind hf fun w statics =>
    hsame w (w.withStatics statics)
      ⟨fun _ => rfl, fun _ => rfl, World.hostText?_withStatics, rfl, rfl⟩

theorem newFunction (c : Callable) : (Run.newFunction c).IgnoresStatics := fun _ _ => rfl

theorem newObject (o : Host.Object) : (Run.newObject o).IgnoresStatics := fun _ _ => rfl

/-- To change an element, or to decline, is to ignore static fields. -/
theorem of_answerChange {x : Run Bool} {target : Value}
    {change? : World → Option (Data → Data)} (hx : ∀ w, x w = w.answerChange target (change? w))
    (hsame : ∀ w statics, change? (w.withStatics statics) = change? w) : x.IgnoresStatics := by
  intro w statics
  rw [hx, hx, hsame]
  cases change? w with
  | none => rfl
  | some change => cases target <;> rfl

end Run.IgnoresStatics

section Ignoring

variable {eng : Engine} {h : Handler}

theorem ignoresStatics_setElement (target : Value) (name : String) (v : Value) :
    (Run.setElement target name v).IgnoresStatics :=
  .of_answerChange (Run.setElement_eq target name · v) fun _ _ => rfl

theorem ignoresStatics_deleteProperty (target : Value) (property : Script.Value) :
    (Run.deleteProperty target property).IgnoresStatics :=
  .of_answerChange (Run.deleteProperty_eq target · property) fun _ _ => rfl

theorem ignoresStatics_uniqueKeys (r : Ref .handler) : (Run.uniqueKeys r).IgnoresStatics := by
  refine .get_bind (fun w => ?_) fun _ _ => rfl
  split
  · exact .pure _
  · next h _ =>
    split
    · exact .pure _
    · exact .bind (Run.IgnoresStatics.holdsOfParts.capturedKeys (.throw _) h) fun keys =>
        .bind (fun _ _ => rfl) fun _ => .pure _

theorem Engine.ignoresStatics_newHandler (eng : Engine) (target : Value) :
    (eng.newHandler target).IgnoresStatics := by
  refine Run.IgnoresStatics.holdsOfParts.newHandler (.raise _)
    (Run.IgnoresStatics.holdsOfParts.raiseAbout (.throw _) (fun _ => .raise _) target [])
    (fun c isStatic w statics => ?_) fun d w statics => rfl
  have hdescriptors : (w.withStatics statics).descriptors = w.descriptors := rfl
  unfold describe
  rw [Run.get_bind, Run.get_bind, hdescriptors]
  cases w.descriptors.find? fun d => d.isStatic == isStatic && decide (d.target = c) <;> rfl

/-- A handler that shows no static field ignores them all, as far as its accessor methods do. -/
theorem Handler.ignoresStatics_writes (heng : eng.DecidesWithoutStatics)
    (hfields : ∀ name e, h.descriptor.field? name = some e → e.field.isStatic = false) :
    h.HoldsOfWrites eng fun _ x => x.IgnoresStatics where
  toHoldsOfParts := Run.IgnoresStatics.holdsOfParts
  exhausted := .throw _
  readField {name e} hentry _ f hf := .get_bind (fun w => hf _) fun w statics => by
    unfold World.readField
    rw [hfields name e hentry]
    rfl
  readPrototype _ :=
    Run.IgnoresStatics.holdsOfParts.readPrototype (.throw _) .raise .newFunction _ _
  toScript v := .get_bind (fun w => by
    split
    · exact .raise _
    · exact Run.IgnoresStatics.holdsOfParts.carryToScript
        (fun r => eng.ignoresStatics_newHandler (.object r)) v)
    fun w statics => by rw [heng.refusesHost]
  toHost v := .get_bind (fun w => by
    split
    · exact .raise _
    · exact Run.IgnoresStatics.holdsOfParts.carryToHost (.throw _) (fun _ => .newObject _) _ v)
    fun w statics => by rw [heng.refusesScript]; rfl
  newFunction _ := .newFunction _
  uniqueKeys := ignoresStatics_uniqueKeys
  setElement := ignoresStatics_setElement h.target
  writeField {name e} hentry v := by
    unfold Run.writeField
    rw [hfields name e hentry]
    split
    · exact .pure _
    · intro w statics
      rw [if_neg Bool.false_ne_true, Run.get_bind, Run.get_bind, World.setField_withStatics]
      rfl
  deleteProperty := ignoresStatics_deleteProperty h.target

end Ignoring

end Membrane
