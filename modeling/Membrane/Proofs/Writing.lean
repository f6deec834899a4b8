import Membrane.Proofs.Copying
import Membrane.Proofs.Elements
import Membrane.Proofs.Refusal

/-!
# What becomes of a write

A write is offered to the element of a collection, then to a field, then to the setter of the
property. The first two take it or decline it, without fault and without a trace. The setter is code
of the host, and what it raises the script is told. So where all values cross, asking for a property
and deleting one always give an answer, and writing one gives an answer unless a setter fails.

## Main definitions

* `World.Declines`: neither an element nor a field takes a write.
* `Engine.LeavesToSetter`: a write that comes to a setter.

## Main results

* `Run.setElement_cases`, `Run.writeField_cases`: elements and fields take a write or decline it.
* `Engine.setNamed_takers`, `Engine.setProperty_cases`: what becomes of a write.
* `Engine.hasProperty_cases`, `Run.deleteProperty_eq_ok`: questions and deletions.
* `answered_unless_setter_fails`: when the traps with a truth value for an answer fail.
-/

namespace Membrane

open Host (Method Value)

/-! ### Elements and fields -/

section Acceptance

variable {target v : Value} {name : String} {w : World}

/-- A field slot is written if the object has it, and nothing changes otherwise. -/
theorem World.setField_cases (w : World) (target : Value) (name : String) (v : Value) :
    w.setField target name v = (false, w) ∨ ∃ w', w.setField target name v = (true, w') := by
  unfold World.setField
  split
  · split
    · exact .inr ⟨_, rfl⟩
    · exact .inl rfl
  · exact .inl rfl

namespace Run

/-- The element of a collection takes a write, or declines it and leaves everything as it is. -/
theorem setElement_cases (target : Value) (name : String) (v : Value) (w : World) :
    setElement target name v w = .ok false w ∨ ∃ w', setElement target name v w = .ok true w' := by
  rw [setElement_eq]
  exact (w.answerChange_cases target _).imp_right fun ⟨_, h⟩ => ⟨_, h⟩

/-- A field takes a write, or declines it and leaves everything as it is. -/
theorem writeField_cases (entry : Descriptor.FieldEntry) (target v : Value) (w : World) :
    writeField entry target v w = .ok false w ∨
      ∃ w', writeField entry target v w = .ok true w' := by
  unfold writeField
  split
  · exact .inl rfl
  · split
    · exact .inr ⟨_, rfl⟩
    · rw [get_bind]
      obtain h | ⟨w', h⟩ := w.setField_cases target entry.field.name v
      · rw [h]
        exact .inl rfl
      · rw [h]
        exact .inr ⟨w', rfl⟩

/-- A deletion is answered. -/
theorem deleteProperty_eq_ok (target : Value) (property : Script.Value) (w : World) :
    ∃ b w', deleteProperty target property w = .ok b w' := by
  rw [deleteProperty_eq]
  obtain h | ⟨change, h⟩ := w.answerChange_cases target
    (property.propertyName?.bind (w.elementRemoval? target))
  · exact ⟨_, _, h⟩
  · exact ⟨_, _, h⟩

end Run

end Acceptance

/-! ### Writes -/

/-- Neither an element nor a field of the name takes a write. -/
structure World.Declines (w : World) (h : Handler) (name : String) (v : Value) : Prop where
  /-- There is no element to be written. -/
  element : Run.setElement h.target name v w = .ok false w
  /-- There is no field to be written. -/
  field : ∀ entry, h.descriptor.field? name = some entry →
    Run.writeField entry h.target v w = .ok false w

/-- A write that comes to the setter of a property: the value is carried to the host, and neither an
element nor a field takes it. -/
structure Engine.LeavesToSetter (eng : Engine) (h : Handler) (property value : Script.Value)
    (w : World) (m : Method) (v : Value) (w₁ : World) : Prop where
  /-- The value crosses. -/
  carried : eng.toHost value w = .ok v w₁
  /-- The property has a name, which nothing but the setter answers for. -/
  declined : ∃ name, property.propertyName? = some name ∧ w₁.Declines h name v ∧
    h.descriptor.setter? name = some m

namespace Engine

variable {eng : Engine} {h : Handler} {property value : Script.Value} {name : String} {v : Value}
  {m : Method} {w w₁ : World}

/-- What elements and fields decline is left to the setter. -/
theorem setNamed_of_declines (hdeclines : w.Declines h name v) :
    eng.setNamed h name v w = eng.setAccessor h name v w := by
  refine (Run.bind_of_ok hdeclines.element).trans ?_
  cases hfield : h.descriptor.field? name with
  | none => rfl
  | some entry => exact Run.bind_of_ok (hdeclines.field entry hfield)

/-- A write is taken by an element or by a field, or both decline it. -/
theorem setNamed_takers (eng : Engine) (h : Handler) (name : String) (v : Value) (w : World) :
    (∃ w', Run.setElement h.target name v w = .ok true w' ∧
      eng.setNamed h name v w = .ok true w') ∨
    (∃ entry w', h.descriptor.field? name = some entry ∧
      Run.writeField entry h.target v w = .ok true w' ∧ eng.setNamed h name v w = .ok true w') ∨
    w.Declines h name v := by
  obtain helement | ⟨w', helement⟩ := Run.setElement_cases h.target name v w
  · cases hfield : h.descriptor.field? name with
    | none => exact .inr (.inr ⟨helement, fun entry hentry => by cases hfield.symm.trans hentry⟩)
    | some entry =>
      obtain hwrite | ⟨w', hwrite⟩ := Run.writeField_cases entry h.target v w
      · refine .inr (.inr ⟨helement, fun entry' hentry => ?_⟩)
        cases hfield.symm.trans hentry
        exact hwrite
      · refine .inr (.inl ⟨entry, w', rfl, hwrite, (Run.bind_of_ok helement).trans ?_⟩)
        simp only [hfield]
        exact Run.bind_of_ok hwrite
  · exact .inl ⟨w', helement, Run.bind_of_ok helement⟩

theorem setNamed_cases (eng : Engine) (h : Handler) (name : String) (v : Value) (w : World) :
    (∃ w', eng.setNamed h name v w = .ok true w') ∨ w.Declines h name v := by
  obtain ⟨w', -, htaken⟩ | ⟨-, w', -, -, htaken⟩ | hdeclines := eng.setNamed_takers h name v w
  · exact .inl ⟨w', htaken⟩
  · exact .inl ⟨w', htaken⟩
  · exact .inr hdeclines

/-- A setter takes a write if there is one. -/
theorem setAccessor_eq_ok {b : Bool} {w' : World} (hrun : eng.setAccessor h name v w = .ok b w') :
    b = false ∧ w' = w ∨ b = true ∧ ∃ m, h.descriptor.setter? name = some m := by
  cases hsetter : h.descriptor.setter? name with
  | none =>
    simp only [setAccessor, hsetter] at hrun
    cases hrun
    exact .inl ⟨rfl, rfl⟩
  | some m =>
    simp only [setAccessor, hsetter] at hrun
    obtain ⟨_, _, -, hanswer⟩ := Run.bind_eq_ok hrun
    cases hanswer
    exact .inr ⟨rfl, m, rfl⟩

/-- A write that is answered was declined at once, or was offered under a name once its value had
crossed. -/
theorem setProperty_eq_ok {b : Bool} {w' : World}
    (hrun : eng.setProperty h property value w = .ok b w') :
    b = false ∧ w' = w ∨ ∃ name v w₁, property.propertyName? = some name ∧
      eng.toHost value w = .ok v w₁ ∧ eng.setNamed h name v w₁ = .ok b w' := by
  cases hname : property.propertyName? with
  | none =>
    simp only [setProperty, hname] at hrun
    cases hrun
    exact .inl ⟨rfl, rfl⟩
  | some name =>
    simp only [setProperty, hname] at hrun
    obtain ⟨v, w₁, hvalue, hnamed⟩ := Run.bind_eq_ok hrun
    exact .inr ⟨name, v, w₁, rfl, hvalue, hnamed⟩

/-- A write that is left to a setter is the setter called on the target. -/
theorem setProperty_of_setter (hleft : eng.LeavesToSetter h property value w m v w₁) :
    eng.setProperty h property value w =
      (eng.callMethod m h.target [v] >>= fun _ => pure true) w₁ := by
  obtain ⟨name, hname, hdeclines, hsetter⟩ := hleft.declined
  unfold setProperty
  rw [hname]
  refine (Run.bind_of_ok hleft.carried).trans ((setNamed_of_declines hdeclines).trans ?_)
  simp only [setAccessor, hsetter]

/-- A write is answered, its value does not cross, or it is left to a setter. -/
theorem setProperty_cases (eng : Engine) (h : Handler) (property value : Script.Value) (w : World) :
    (∃ b w', eng.setProperty h property value w = .ok b w') ∨
      (∃ e w', eng.toHost value w = .error e w' ∧
        eng.setProperty h property value w = .error e w') ∨
      ∃ m v w₁, eng.LeavesToSetter h property value w m v w₁ := by
  cases hname : property.propertyName? with
  | none => exact .inl ⟨false, w, by simp only [setProperty, hname]; rfl⟩
  | some name =>
    cases hvalue : eng.toHost value w with
    | error e w' => exact .inr (.inl ⟨e, w', rfl, setProperty_of_refused hname hvalue⟩)
    | ok v w₁ =>
      have hrun : eng.setProperty h property value w = eng.setNamed h name v w₁ := by
        simp only [setProperty, hname]
        exact Run.bind_of_ok hvalue
      obtain ⟨w', htaken⟩ | hdeclines := eng.setNamed_cases h name v w₁
      · exact .inl ⟨true, w', hrun.trans htaken⟩
      · cases hsetter : h.descriptor.setter? name with
        | none =>
          refine .inl ⟨false, w₁, (hrun.trans (setNamed_of_declines hdeclines)).trans ?_⟩
          simp only [setAccessor, hsetter]
          rfl
        | some m => exact .inr (.inr ⟨m, v, w₁, hvalue, name, hname, hdeclines, hsetter⟩)

/-- A write that is left to a setter fails just if the setter fails, and with its fault. -/
theorem setProperty_eq_error_iff (hleft : eng.LeavesToSetter h property value w m v w₁) {e : Halt}
    {w' : World} : eng.setProperty h property value w = .error e w' ↔
      eng.callMethod m h.target [v] w₁ = .error e w' := by
  rw [setProperty_of_setter hleft]
  constructor
  · intro herror
    obtain hcall | ⟨_, _, -, hanswer⟩ := Run.bind_eq_error herror
    · exact hcall
    · cases hanswer
  · exact Run.bind_of_error

/-! ### Questions -/

/-- A question is answered unless the property does not cross. -/
theorem hasProperty_cases (eng : Engine) (h : Handler) (property : Script.Value) (w : World) :
    (∃ b w', eng.hasProperty h property w = .ok b w') ∨
      ∃ e w', eng.toHost property w = .error e w' ∧
        eng.hasProperty h property w = .error e w' := by
  have hanswered {b : Bool} {w' : World} (helement : eng.hasElement h property w = .ok b w') :
      ∃ b w', eng.hasProperty h property w = .ok b w' :=
    ⟨_, w', Run.bind_of_ok helement⟩
  have hcrossing (answer : Value → Bool)
      (helement : eng.hasElement h property w =
        (eng.toHost property >>= fun v => pure (answer v)) w) :
      (∃ b w', eng.hasProperty h property w = .ok b w') ∨
        ∃ e w', eng.toHost property w = .error e w' ∧
          eng.hasProperty h property w = .error e w' := by
    cases hvalue : eng.toHost property w with
    | ok v w' => exact .inl (hanswered (helement.trans (Run.bind_of_ok hvalue)))
    | error e w' =>
      exact .inr ⟨e, w', rfl, Run.bind_of_error (helement.trans (Run.bind_of_error hvalue))⟩
  cases hdata : w.data? h.target with
  | none => exact .inl (hanswered (by unfold hasElement; rw [Run.get_bind, hdata]; rfl))
  | some data =>
    cases data with
    | map entries => exact hcrossing _ (by unfold hasElement; rw [Run.get_bind, hdata])
    | set members => exact hcrossing _ (by unfold hasElement; rw [Run.get_bind, hdata])
    | list items => exact hcrossing _ (by unfold hasElement; rw [Run.get_bind, hdata])
    | _ => exact .inl (hanswered (by unfold hasElement; rw [Run.get_bind, hdata]; rfl))

end Engine

/-- The traps with a truth value for an answer, on an engine that lets every value cross. A deletion
is always answered. To ask for a property raises no fault, and there is an answer for every property
but an array that contains itself, which has no copy. To write one raises just the faults of the
setter it is left to, when neither an element nor a field takes the write: so it is answered unless
the value contains itself or the setter fails. -/
theorem answered_unless_setter_fails {eng : Engine} (hopen : eng.Open) (h : Handler)
    (property value : Script.Value) (w : World) :
    (∃ b w', Run.deleteProperty h.target property w = .ok b w') ∧
    (∀ f w', eng.hasProperty h property w ≠ .error (.fault f) w') ∧
    (property.Unfolds w → ∃ b w', eng.hasProperty h property w = .ok b w') ∧
    (∀ f w', eng.setProperty h property value w = .error (.fault f) w' ↔
      ∃ m v w₁, eng.LeavesToSetter h property value w m v w₁ ∧
        eng.callMethod m h.target [v] w₁ = .error (.fault f) w') ∧
    (value.Unfolds w →
      (∀ m v w₁, eng.LeavesToSetter h property value w m v w₁ →
        ∃ u w', eng.callMethod m h.target [v] w₁ = .ok u w') →
      ∃ b w', eng.setProperty h property value w = .ok b w') := by
  refine ⟨Run.deleteProperty_eq_ok _ _ w, fun f w' hfault => ?_, fun hproperty => ?_,
    fun f w' => ⟨fun hfault => ?_, ?_⟩, fun hvalue hsetter => ?_⟩
  · obtain ⟨b, w₁, hok⟩ | ⟨e, w₁, hcross, herror⟩ := eng.hasProperty_cases h property w
    · cases hok.symm.trans hfault
    · cases herror.symm.trans hfault
      exact hopen.toHost_ne_fault property w f _ hcross
  · obtain hok | ⟨e, w₁, hcross, -⟩ := eng.hasProperty_cases h property w
    · exact hok
    · obtain ⟨v, w', hcarried⟩ := hopen.toHost_eq_ok hproperty
      cases hcarried.symm.trans hcross
  · obtain ⟨b, w₁, hok⟩ | ⟨e, w₁, hcross, herror⟩ | ⟨m, v, w₁, hleft⟩ :=
      eng.setProperty_cases h property value w
    · cases hok.symm.trans hfault
    · cases herror.symm.trans hfault
      exact absurd hcross (hopen.toHost_ne_fault value w f _)
    · exact ⟨m, v, w₁, hleft, (Engine.setProperty_eq_error_iff hleft).1 hfault⟩
  · rintro ⟨m, v, w₁, hleft, hcall⟩
    exact (Engine.setProperty_eq_error_iff hleft).2 hcall
  · obtain hok | ⟨e, w₁, hcross, -⟩ | ⟨m, v, w₁, hleft⟩ := eng.setProperty_cases h property value w
    · exact hok
    · obtain ⟨v, w', hcarried⟩ := hopen.toHost_eq_ok hvalue
      cases hcarried.symm.trans hcross
    · obtain ⟨u, w', hcall⟩ := hsetter m v w₁ hleft
      exact ⟨true, w', (Engine.setProperty_of_setter hleft).trans (Run.bind_of_ok hcall)⟩

/-- A class whose objects have nothing but a setter of the property `x`. -/
def withSetter : Host.Class :=
  .extending ⟨Host.Library.firstSerial, "K", none, none, none, [],
    [⟨"setX", some 1, false, true, .custom 0⟩]⟩ Host.Library.object

/-- The handler of an object with a setter. -/
def setterHandler : Handler :=
  ⟨.object ⟨0⟩, .build Config.standard withSetter false, none, none⟩

/-- The world with an object with a setter and nothing else. -/
def World.ofSetter : World :=
  { objects := ({} : Store .object Host.Object).alloc (.new withSetter .plain) }

/-- The engine that lets every value cross and under which all code of the embedder fails. -/
def Engine.failing : Engine :=
  { Engine.direct Config.standard with method := fun _ _ _ => Run.raise (.raised .generic "no") }

theorem Engine.open_failing : Engine.failing.Open := ⟨fun _ _ => rfl, fun _ _ => rfl⟩

/-- The script is told what a setter raises. A property without a setter declines the write. -/
theorem answered_unless_setter_fails_refused :
    (∃ w', Engine.failing.setProperty setterHandler (.string "x") .null World.ofSetter =
      .error (.fault (.raised .generic "no")) w') ∧
    ∃ b w', Engine.failing.setProperty setterHandler (.string "y") .null World.ofSetter =
      .ok b w' := by
  have hanswers (name : String) := answered_unless_setter_fails Engine.open_failing setterHandler
    (.string name) .null World.ofSetter
  obtain ⟨-, -, -, hfails, -⟩ := hanswers "x"
  obtain ⟨-, -, -, -, hanswered⟩ := hanswers "y"
  have hleft : Engine.failing.LeavesToSetter setterHandler (.string "x") .null World.ofSetter
      ⟨"setX", some 1, false, true, .custom 0⟩ .null World.ofSetter :=
    ⟨rfl, "x", rfl, ⟨rfl, nofun⟩, by decide⟩
  refine ⟨⟨_, (hfails _ _).2 ⟨_, _, _, hleft, rfl⟩⟩, hanswered nofun fun m v w₁ hleft => ?_⟩
  obtain ⟨name, hname, -, hsetter⟩ := hleft.declined
  cases hname
  have hnone : setterHandler.descriptor.setter? "y" = none := by decide
  cases hnone.symm.trans hsetter

end Membrane
