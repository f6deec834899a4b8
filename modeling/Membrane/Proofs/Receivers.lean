import Membrane.Dispatch
import Membrane.Proofs.Exposure
import Membrane.Proofs.Writing

/-!
# Receivers of host methods

A static method has no receiver, and a method of instances runs on the target of the handler. Which
receiver a computation calls a method on shows in what the code of the method makes of it, and code
is the embedder's. So a computation calls methods on given receivers if no engine can tell when
their code is run on those receivers, whatever it is called on.

Functions read from a proxy do so. Accessors run on the target whether they are static or not. Of an
instance none is static, but a reference to a class exposes the static methods of the class, and a
static accessor is given the reference.

## Main definitions

* `Host.Method.receiver`: what a method is meant to run on.
* `Engine.onReceivers`, `CallsOn`: computations that call methods on given receivers.
* `Handler.ReadsBy`, `Handler.WritesBy`: the property of an accessor.

## Main results

* `callsOn_perform_methods`: functions read from a proxy.
* `Engine.getProperty_of_readsBy`: what an accessor reads.
* `calls_on_receivers`: which properties call methods on the receivers they are meant to run on.
-/

namespace Membrane

open Host (Method Value)

/-! ### Receivers -/

/-- What a method is meant to run on: nothing if it is static, and the target otherwise. -/
def Host.Method.receiver (m : Method) (target : Value) : Value :=
  if m.isStatic then .null else target

/-- The code of a method, if it is the embedder's, is given a receiver. -/
def Host.Method.IsGiven (m : Method) (ρ : Nat → Value) (receiver : Value) : Prop :=
  ∀ code, m.body = .custom code → ρ code = receiver

/-- The engine under which the code of each host method runs on a given receiver, whatever it is
called on. -/
def Engine.onReceivers (eng : Engine) (ρ : Nat → Value) : Engine :=
  { eng with method := fun code _ args => eng.method code (ρ code) args }

/-- A computation calls host methods on given receivers: no engine can tell when their code runs on
the given receivers, whatever it is called on. -/
def CallsOn {α : Type} (ρ : Nat → Value) (x : Engine → Run α) : Prop :=
  ∀ eng : Engine, x (eng.onReceivers ρ) = x eng

section Calls

variable {α β : Type} {ρ : Nat → Value} {m : Method} {receiver : Value}

theorem CallsOn.bind {x : Engine → Run α} {f : Engine → α → Run β} (hx : CallsOn ρ x)
    (hf : ∀ a, CallsOn ρ (f · a)) : CallsOn ρ fun eng => x eng >>= f eng := by
  intro eng
  have hrest : f (eng.onReceivers ρ) = f eng := funext fun a => hf a eng
  simp only [hx eng, hrest]

/-- A method is called on its receiver. -/
theorem callsOn_callMethod (hm : m.IsGiven ρ receiver) (args : List Value) :
    CallsOn ρ fun eng => eng.callMethod m receiver args := by
  intro eng
  unfold Engine.callMethod
  cases hbody : m.body with
  | builtIn b => rfl
  | custom code =>
    have hcode : ρ code = receiver := hm code hbody
    simp only [Engine.onReceivers, hcode]

variable {h : Handler} {config : Config} {c : Host.Class} {isStatic : Bool}

/-- The methods of a name are called on the receivers they are meant to run on. -/
theorem callsOn_perform_methods (hd : h.descriptor = .build config c isStatic)
    (hρ : ∀ m ∈ Descriptor.methodSequence c isStatic, m.IsGiven ρ (m.receiver h.target))
    {name : String} {g : Descriptor.MethodGroup} (hg : h.descriptor.method? name = some g)
    (invoke : Invoke) (steps : Nat) (this : Script.Value) (args : List Script.Value) :
    CallsOn ρ fun eng => eng.perform invoke steps (.methods g h.target) this args := by
  rw [hd] at hg
  refine .bind (fun eng => rfl) fun values => ?_
  cases hselect : g.select? values.length with
  | none => exact fun eng => rfl
  | some m =>
    have hgiven := hρ m (Descriptor.mem_methodSequence_of_select? hg hselect)
    change CallsOn ρ fun eng => eng.callMethod m (m.receiver h.target) values >>= eng.toScript
    exact .bind (callsOn_callMethod hgiven values) fun v eng => rfl

/-- A property is read with methods called on given receivers if its accessor is. -/
theorem callsOn_getProperty {property : Script.Value}
    (hgetter : ∀ name m, property.propertyName? = some name → h.descriptor.getter? name = some m →
      m.IsGiven ρ h.target) :
    CallsOn ρ fun eng => eng.getProperty h property := by
  intro eng
  have haccessor : (eng.onReceivers ρ).getAccessor h property = eng.getAccessor h property := by
    unfold Engine.getAccessor
    cases hm : property.propertyName?.bind h.descriptor.getter? with
    | none => rfl
    | some m =>
      obtain ⟨name, hname, hget⟩ := Option.bind_eq_some_iff.1 hm
      simp only [Run.answerWith, callsOn_callMethod (hgetter name m hname hget) [] eng]
      rfl
  simp only [Engine.getProperty, Engine.resolve, haccessor]
  rfl

/-- A property is written with methods called on given receivers if its accessor is. -/
theorem callsOn_setProperty {property : Script.Value} (value : Script.Value)
    (hsetter : ∀ name m, property.propertyName? = some name → h.descriptor.setter? name = some m →
      m.IsGiven ρ h.target) :
    CallsOn ρ fun eng => eng.setProperty h property value := by
  intro eng
  unfold Engine.setProperty
  cases hname : property.propertyName? with
  | none => rfl
  | some name =>
    have haccessor (v : Value) :
        (eng.onReceivers ρ).setAccessor h name v = eng.setAccessor h name v := by
      unfold Engine.setAccessor
      cases hm : h.descriptor.setter? name with
      | none => rfl
      | some m => simp only [callsOn_callMethod (hsetter name m hname hm) [v] eng]
    simp only [Engine.setNamed, haccessor]
    rfl

/-- No accessor of an instance is static. -/
theorem isStatic_of_accessor? (hd : h.descriptor = .build config c false)
    {beginnings : List String} {count : Nat} {name : String}
    (hm : h.descriptor.accessor? beginnings count name = some m) : m.isStatic = false := by
  obtain ⟨accessor, g, hg, hselect⟩ := Descriptor.select?_of_accessor? hm
  rw [hd] at hg
  have hstatic := (Descriptor.isPublic_of_mem_methodSequence
    (Descriptor.mem_methodSequence_of_select? hg hselect)).2
  exact Bool.eq_false_iff.2 fun htrue => Bool.false_ne_true (hstatic htrue)

end Calls

/-! ### Accessors -/

/-- A property that is read by an accessor, unless a collection shows an element of the name. -/
structure Handler.ReadsBy (h : Handler) (name : String) (m : Method) : Prop where
  /-- No field goes by the name. -/
  field : h.descriptor.field? name = none
  /-- Methods that go by the name give way. -/
  method : (h.descriptor.method? name).isSome → h.descriptor.isOverride name
  /-- The accessor. -/
  getter : h.descriptor.getter? name = some m

/-- A property that is written by an accessor, unless a collection takes an element of the name. -/
structure Handler.WritesBy (h : Handler) (name : String) (m : Method) : Prop where
  /-- No field goes by the name. -/
  field : h.descriptor.field? name = none
  /-- The accessor. -/
  setter : h.descriptor.setter? name = some m

namespace Engine

variable {eng : Engine} {h : Handler} {name : String} {m : Method} {w : World}

/-- An accessor reads its property from the target. -/
theorem getProperty_of_readsBy (hreads : h.ReadsBy name m)
    (helement : ¬w.ShowsElement h.target name) :
    eng.getProperty h (.string name) w = (eng.callMethod m h.target [] >>= eng.toScript) w := by
  have hname : (Script.Value.string name).propertyName? = some name := rfl
  refine getProperty_of_resolve ?_
  unfold resolve
  rw [Run.firstAnswer_of_none, Run.firstAnswer_of_none, Run.firstAnswer_of_none,
    Run.firstAnswer_of_none, Run.firstAnswer_of_answer]
  · simp only [getAccessor, hname, Option.bind_some, hreads.getter]
    rfl
  · rfl
  · refine (answersIff_getMethod h (.string name) w).passes ?_
    rintro ⟨name', hname', hstays, hsome⟩
    cases hname'
    exact Bool.false_ne_true (hstays.symm.trans (hreads.method hsome))
  · refine (eng.answersIff_getField h (.string name) w).passes ?_
    rintro ⟨name', hname', hsome⟩
    cases hname'
    simp [hreads.field] at hsome
  · refine (eng.answersIff_getElement h (.string name) w).passes ?_
    rintro ⟨name', hname', hshows⟩
    cases hname'
    exact helement hshows

/-- Called without arguments, the methods of a name run the one without parameters on the receiver
it is meant to run on. -/
theorem callGroup_nil {g : Descriptor.MethodGroup} {target : Value} (hm : g.select? 0 = some m) :
    eng.callGroup g target [] = eng.callMethod m (m.receiver target) [] >>= eng.toScript := by
  funext w
  refine (Run.bind_of_ok (show eng.toHostAll [] w = .ok [] w from rfl)).trans ?_
  rw [List.length_nil, hm]
  rfl

end Engine

/-! ### Static accessors -/

/-- The engine under which the code of each method refuses to run without a receiver. -/
def Engine.demanding : Engine :=
  { Engine.direct Config.standard with
    method := fun _ receiver _ =>
      if receiver.isNull then Run.raise (.raised .type "no receiver") else pure .null }

section Static

variable {h : Handler} {name : String} {m : Method} {code : Nat} {ρ : Nat → Value}

/-- Code that runs on given receivers is called on the one that is given to it. -/
theorem callMethod_onReceivers (hbody : m.body = .custom code) (eng : Engine) (receiver : Value)
    (args : List Value) :
    (eng.onReceivers ρ).callMethod m receiver args = eng.callMethod m (ρ code) args := by
  simp only [Engine.callMethod, hbody]
  rfl

/-- A demanding engine can tell the target of a handler from no receiver. So a method that it runs
alike on the target and on what the method is meant to run on is not static. -/
theorem isStatic_of_demanding {α : Type} (hbody : m.body = .custom code)
    (hnull : h.target.isNull = false) {args : List Value} {f : Value → Run α} {a : α} {w w' : World}
    (heq : (Engine.demanding.callMethod m (m.receiver h.target) args >>= f) w =
      (Engine.demanding.callMethod m h.target args >>= f) w)
    (hf : f .null w = .ok a w') : m.isStatic = false := by
  have hcall (receiver : Value) : Engine.demanding.callMethod m receiver args =
      if receiver.isNull then Run.raise (.raised .type "no receiver") else pure .null := by
    simp only [Engine.callMethod, hbody]
    rfl
  by_contra hstatic
  have hreceiver : m.receiver h.target = .null := if_pos (Bool.of_not_eq_false hstatic)
  rw [hcall, hcall, hreceiver, hnull] at heq
  cases heq.trans (Run.bind_of_ok (f := f) (a := .null) rfl |>.trans hf)

/-- In a world without objects nothing has storage. -/
theorem World.data?_empty (v : Value) : ({} : World).data? v = none := by
  cases v <;> rfl

/-- Where a property is read by an accessor, methods are called on the receivers they are meant to
run on just if the accessor is not static. -/
theorem callsOn_getProperty_iff (hbody : m.body = .custom code) (hreads : h.ReadsBy name m)
    (hnull : h.target.isNull = false) (hgiven : m.IsGiven ρ (m.receiver h.target)) :
    (CallsOn ρ fun eng => eng.getProperty h (.string name)) ↔ m.isStatic = false := by
  constructor
  · intro hcalls
    have helement : ¬({} : World).ShowsElement h.target name := by
      simp [World.ShowsElement, World.element?, World.array?, World.data?_empty]
    have heq : (Engine.demanding.onReceivers ρ).getProperty h (.string name) {} =
        Engine.demanding.getProperty h (.string name) {} := congrFun (hcalls Engine.demanding) {}
    rw [Engine.getProperty_of_readsBy hreads helement,
      Engine.getProperty_of_readsBy hreads helement, callMethod_onReceivers hbody,
      hgiven code hbody] at heq
    exact isStatic_of_demanding hbody hnull heq rfl
  · intro hstatic
    refine callsOn_getProperty fun name' m' hname hm => ?_
    cases hname
    cases hreads.getter.symm.trans hm
    simpa [Method.receiver, hstatic] using hgiven

/-- Where a property is written by an accessor, methods are called on the receivers they are meant
to run on just if the accessor is not static. -/
theorem callsOn_setProperty_iff (hbody : m.body = .custom code) (hwrites : h.WritesBy name m)
    (hnull : h.target.isNull = false) (hgiven : m.IsGiven ρ (m.receiver h.target)) :
    (∀ value, CallsOn ρ fun eng => eng.setProperty h (.string name) value) ↔
      m.isStatic = false := by
  constructor
  · intro hcalls
    have hleft (eng : Engine) (hvalue : eng.toHost .null {} = .ok .null {}) :
        eng.LeavesToSetter h (.string name) .null {} m .null {} := by
      refine ⟨hvalue, name, rfl, ⟨?_, fun entry hentry => ?_⟩, hwrites.setter⟩
      · rw [Run.setElement_eq, World.elementWrite?, World.data?_empty]
        rfl
      · cases hwrites.field.symm.trans hentry
    have heq : (Engine.demanding.onReceivers ρ).setProperty h (.string name) .null {} =
        Engine.demanding.setProperty h (.string name) .null {} :=
      congrFun (hcalls .null Engine.demanding) {}
    rw [Engine.setProperty_of_setter (hleft _ rfl), Engine.setProperty_of_setter (hleft _ rfl),
      callMethod_onReceivers hbody, hgiven code hbody] at heq
    exact isStatic_of_demanding hbody hnull heq rfl
  · intro hstatic value
    refine callsOn_setProperty value fun name' m' hname hm => ?_
    cases hname
    cases hwrites.setter.symm.trans hm
    simpa [Method.receiver, hstatic] using hgiven

/-- To read a property by its accessor is to call the accessor, just if the accessor is not
static. -/
theorem getProperty_eq_callGroup_iff (hbody : m.body = .custom code) (hreads : h.ReadsBy name m)
    (hnull : h.target.isNull = false) {g : Descriptor.MethodGroup} (hm : g.select? 0 = some m) :
    (∀ (eng : Engine) (w : World), ¬w.ShowsElement h.target name →
      eng.getProperty h (.string name) w = eng.callGroup g h.target [] w) ↔ m.isStatic = false := by
  constructor
  · intro heq
    have helement : ¬({} : World).ShowsElement h.target name := by
      simp [World.ShowsElement, World.element?, World.array?, World.data?_empty]
    have hcalled := heq Engine.demanding {} helement
    rw [Engine.getProperty_of_readsBy hreads helement, Engine.callGroup_nil hm] at hcalled
    exact isStatic_of_demanding hbody hnull hcalled.symm rfl
  · intro hstatic eng w helement
    have hreceiver : m.receiver h.target = h.target := if_neg (by simp [hstatic])
    rw [Engine.getProperty_of_readsBy hreads helement, Engine.callGroup_nil hm, hreceiver]

end Static

/-- Which computations call the methods of a class on the receivers they are meant to run on: static
ones on nothing, and those of instances on the target. Functions read from a proxy do, and so do all
properties of an instance that are read or written. On a reference to a class a property that is
read or written by an accessor does so just if the accessor is not static, and just then to read it
is to call the accessor: a static accessor runs on the reference. -/
theorem calls_on_receivers {h : Handler} {config : Config} {c : Host.Class} {isStatic : Bool}
    (hd : h.descriptor = .build config c isStatic) (hnull : h.target.isNull = false)
    {ρ : Nat → Value}
    (hρ : ∀ m ∈ Descriptor.methodSequence c isStatic, m.IsGiven ρ (m.receiver h.target)) :
    (∀ name g, h.descriptor.method? name = some g → ∀ invoke steps this args,
      CallsOn ρ fun eng => eng.perform invoke steps (.methods g h.target) this args) ∧
    (isStatic = false → ∀ property,
      (CallsOn ρ fun eng => eng.getProperty h property) ∧
        ∀ value, CallsOn ρ fun eng => eng.setProperty h property value) ∧
    (∀ name m code, m.body = .custom code → h.ReadsBy name m →
      ((CallsOn ρ fun eng => eng.getProperty h (.string name)) ↔ m.isStatic = false) ∧
        ∃ accessor g, h.descriptor.method? accessor = some g ∧ g.select? 0 = some m ∧
          ((∀ (eng : Engine) (w : World), ¬w.ShowsElement h.target name →
            eng.getProperty h (.string name) w = eng.callGroup g h.target [] w) ↔
              m.isStatic = false)) ∧
    ∀ name m code, m.body = .custom code → h.WritesBy name m →
      ((∀ value, CallsOn ρ fun eng => eng.setProperty h (.string name) value) ↔
        m.isStatic = false) := by
  have hgiven {beginnings : List String} {count : Nat} {name : String} {m : Method}
      (hm : h.descriptor.accessor? beginnings count name = some m) :
      m.IsGiven ρ (m.receiver h.target) := by
    obtain ⟨accessor, g, hg, hselect⟩ := Descriptor.select?_of_accessor? hm
    rw [hd] at hg
    exact hρ m (Descriptor.mem_methodSequence_of_select? hg hselect)
  refine ⟨fun name g hg => callsOn_perform_methods hd hρ hg, fun hinstance property => ?_,
    fun name m code hbody hreads => ⟨?_, ?_⟩, fun name m code hbody hwrites => ?_⟩
  · subst hinstance
    have htarget {beginnings : List String} {count : Nat} {name : String} {m : Method}
        (hm : h.descriptor.accessor? beginnings count name = some m) : m.IsGiven ρ h.target := by
      simpa [Method.receiver, isStatic_of_accessor? hd hm] using hgiven hm
    exact ⟨callsOn_getProperty fun name m _ hm => htarget hm,
      fun value => callsOn_setProperty value fun name m _ hm => htarget hm⟩
  · exact callsOn_getProperty_iff hbody hreads hnull (hgiven hreads.getter)
  · obtain ⟨accessor, g, hg, hselect⟩ := Descriptor.select?_of_accessor? hreads.getter
    exact ⟨accessor, g, hg, hselect, getProperty_eq_callGroup_iff hbody hreads hnull hselect⟩
  · exact callsOn_setProperty_iff hbody hwrites hnull (hgiven hwrites.setter)

/-- A class with a static method that reads the property `x`. -/
def withStaticGetter : Host.Class :=
  .extending ⟨Host.Library.firstSerial, "K", none, none, none, [],
    [⟨"getX", some 0, true, true, .custom 0⟩]⟩ Host.Library.object

/-- The handler of a reference to a class with a static accessor. -/
def staticGetterHandler : Handler :=
  ⟨.object ⟨0⟩, .build Config.standard withStaticGetter true, none, none⟩

/-- A static accessor is called on nothing as a method, and on the reference to its class when its
property is read. -/
theorem calls_on_receivers_static_getter :
    (∃ g, staticGetterHandler.descriptor.method? "getX" = some g ∧
      ∀ invoke steps this args, CallsOn (fun _ => .null) fun eng =>
        eng.perform invoke steps (.methods g staticGetterHandler.target) this args) ∧
    ¬ CallsOn (fun _ => .null) fun eng => eng.getProperty staticGetterHandler (.string "x") := by
  have hsequence : Descriptor.methodSequence withStaticGetter true =
      [⟨"getX", some 0, true, true, .custom 0⟩, Host.Library.method "getName" 0 .className,
        Host.Library.method "toString" 0 .text, Host.Library.method "hashCode" 0 .hashCode,
        Host.Library.method "equals" 1 .equals] := rfl
  have hρ : ∀ m ∈ Descriptor.methodSequence withStaticGetter true,
      m.IsGiven (fun _ => .null) (m.receiver staticGetterHandler.target) := by
    rw [hsequence]
    simp only [List.forall_mem_cons]
    exact ⟨fun _ _ => rfl, nofun, nofun, nofun, nofun, nofun⟩
  obtain ⟨hcalls, -, hreads, -⟩ := calls_on_receivers (h := staticGetterHandler) rfl rfl hρ
  have hgetter : staticGetterHandler.ReadsBy "x" ⟨"getX", some 0, true, true, .custom 0⟩ :=
    ⟨by decide, fun hmethod => absurd hmethod (by decide), by decide⟩
  have hmethod : staticGetterHandler.descriptor.method? "getX" =
      some ⟨"getX", [⟨"getX", some 0, true, true, .custom 0⟩]⟩ := by decide
  exact ⟨⟨_, hmethod, hcalls "getX" _ hmethod⟩,
    fun hread => Bool.noConfusion ((hreads "x" _ 0 rfl hgetter).1.1 hread)⟩

end Membrane
