import Membrane.Proofs.Accessors
import Membrane.Proofs.Calling
import Membrane.Proofs.Components
import Membrane.Proofs.Operations
import Membrane.Proofs.Requests
import Membrane.Proofs.Resolution
import Membrane.Proofs.Writing

/-!
# Arrays in the hands of scripts

Arrays show the script their elements, their length and the methods of the root class, which change
nothing. They have no fields, and no configuration makes one of those methods a setter, since what
follows the first part of a setter's name starts with a capital. So nothing that a script does with
an array through its proxy changes its length or the kind of its elements: only the request to write
an element does anything to an array of primitives, and it stores what the component type makes of
the value.

## Main definitions

* `Handler.ServesArray`: the handler of an array.
* `Use`, `Use.runAll`: what a script does with a value through its proxy.
* `Engine.Fits`: a write that an array takes.

## Main results

* `Descriptor.setter?_ofArray`: no property of an array has a setter.
* `Use.keepsArray_run`: one use of an array.
* `array_stays_typed`: an array after any number of uses.
-/

namespace Membrane

open Host (Component Method Value)
open Host.Library (arrayOf)

/-! ### What arrays expose -/

namespace Descriptor

variable {config : Config} {c : Component} {name : String} {m : Method}

/-- Arrays have no fields. -/
theorem field?_ofArray (config : Config) (c : Component) (name : String) :
    (build config (arrayOf c) false).field? name = none := by
  rw [field?_build]
  rfl

/-- The methods of arrays are those of the root class. -/
theorem body_of_exposes_ofArray (h : (build config (arrayOf c) false).Exposes m) :
    m.body = .builtIn .text ∨ m.body = .builtIn .hashCode ∨ m.body = .builtIn .equals := by
  have hm : m ∈ Host.Library.object.own.methods := mem_methodSequence_of_exposes h
  simp only [Host.Library.object, Host.Class.own, List.mem_cons, List.not_mem_nil, or_false] at hm
  obtain rfl | rfl | rfl := hm
  · exact .inl rfl
  · exact .inr (.inl rfl)
  · exact .inr (.inr rfl)

/-- No configuration gives an array a setter: the one method with an argument has a name in small
letters. -/
theorem setter?_ofArray (config : Config) (c : Component) (name : String) :
    (build config (arrayOf c) false).setter? name = none := by
  refine Option.eq_none_iff_forall_ne_some.2 fun m hm => ?_
  obtain ⟨hmem, harity⟩ := mem_methodSequence_of_accessor? hm
  have hcapital := all_isSmallLatin_of_accessor? hm
  have hnone : Host.Library.object.own.methods.all (fun m =>
      m.arity != some 1 || m.name.toList.all (Text.isSmallLatin ·.toNat)) = true := rfl
  have hmethod := List.all_eq_true.1 hnone m hmem
  simp [harity, hcapital] at hmethod

end Descriptor

/-- A handler answers for an array of a component type. -/
structure Handler.ServesArray (h : Handler) (v : Value) (c : Component) : Prop where
  /-- Its target is the array. -/
  target : h.target = v
  /-- It shows what instances of the array's class show. -/
  descriptor : ∃ config, h.descriptor = .build config (arrayOf c) false

namespace Handler.ServesArray

variable {h : Handler} {v : Value} {c : Component} {m : Method} (hh : h.ServesArray v c)
include hh

theorem field?_eq_none (name : String) : h.descriptor.field? name = none := by
  obtain ⟨config, hd⟩ := hh.descriptor
  rw [hd, Descriptor.field?_ofArray]

theorem setter?_eq_none (name : String) : h.descriptor.setter? name = none := by
  obtain ⟨config, hd⟩ := hh.descriptor
  rw [hd, Descriptor.setter?_ofArray]

theorem prototype?_eq_none (name : String) : h.prototype? name = none := by
  obtain ⟨config, hd⟩ := hh.descriptor
  unfold Handler.prototype?
  rw [hd]
  rfl

/-- The methods of an array leave the world as it is. -/
theorem looks_callMethod (eng : Engine) (hm : h.descriptor.Exposes m) (receiver : Value)
    (args : List Value) : (eng.callMethod m receiver args).Looks := by
  obtain ⟨config, hd⟩ := hh.descriptor
  rw [hd] at hm
  unfold Engine.callMethod
  obtain hbody | hbody | hbody := Descriptor.body_of_exposes_ofArray hm
  all_goals rw [hbody]
  · exact .bind (.hostText receiver []) fun _ => .pure _
  · exact .pure _
  · exact .pure _

/-- The methods of an array give a text, a number or a truth value. -/
theorem primitive_of_callMethod {eng : Engine} (hm : h.descriptor.Exposes m) {receiver u : Value}
    {args : List Value} {w w' : World} (hrun : eng.callMethod m receiver args w = .ok u w') :
    ∃ s, u.scriptPrimitive? = some s := by
  obtain ⟨config, hd⟩ := hh.descriptor
  rw [hd] at hm
  unfold Engine.callMethod at hrun
  obtain hbody | hbody | hbody := Descriptor.body_of_exposes_ofArray hm
  all_goals rw [hbody] at hrun
  · obtain ⟨text, w₁, -, hrun⟩ := Run.bind_eq_ok hrun
    cases hrun
    exact ⟨_, rfl⟩
  · cases hrun
    exact ⟨_, rfl⟩
  · cases hrun
    exact ⟨_, rfl⟩

end Handler.ServesArray

/-! ### Requests -/

section Requests

variable {eng : Engine} {h : Handler} {v : Value} {c : Component} {n : Nat}
  (hh : h.ServesArray v c)

theorem Engine.keepsArray_toScript (eng : Engine) (u : Value) :
    (eng.toScript u).Within (World.KeepsArray v c n) :=
  (eng.within_toScript u).mono fun _ _ hadds => .of_objects_eq hadds.alike.objects

include hh

/-- No part of a handler's answers changes the length of an array or the kind of its elements. -/
theorem Handler.ServesArray.keepsArray_parts (eng : Engine) (n : Nat) :
    h.HoldsOfParts eng fun _ x => x.Within (World.KeepsArray v c n) where
  toHoldsOfParts := Run.Within.holdsOfParts
  readPrototype _ :=
    Run.Within.holdsOfParts.readPrototype (.throw _) .raise (fun _ _ => .of_objects_eq rfl) _ _
  readField hentry := by
    rw [hh.field?_eq_none] at hentry
    cases hentry
  toScript := eng.keepsArray_toScript
  toHost s := (eng.within_toHost s).mono fun _ _ => World.AddsObjects.keepsArray
  newFunction _ _ := .of_objects_eq rfl
  exhausted := .throw _
  callMethod hm args := .of_looks (hh.looks_callMethod eng hm h.target args)
  setElement name u := by
    rw [hh.target]
    exact Run.keepsArray_setElement name u
  writeField hentry := by
    rw [hh.field?_eq_none] at hentry
    cases hentry
  deleteProperty property := by
    rw [hh.target]
    exact Run.keepsArray_deleteProperty property
  uniqueKeys := Run.within_uniqueKeys fun _ _ => .of_objects_eq rfl

end Requests

/-! ### Calls of methods -/

/-- What a script can call on an array: its methods, its iterator and its conversion. -/
inductive Handler.Gives (h : Handler) : Callable → Prop
  /-- The exposed methods of a name. -/
  | methods {name : String} {g : Descriptor.MethodGroup}
      (hg : h.descriptor.method? name = some g) : h.Gives (.methods g h.target)
  /-- An iterator. -/
  | iterate (kind : IterationKind) : h.Gives (.iterate h.target kind)
  /-- The conversion to a primitive. -/
  | toPrimitive : h.Gives (.toPrimitive h.target)

section Calls

variable {eng : Engine} {h : Handler} {v : Value} {c : Component} {n : Nat}
  {property s : Script.Value} {w w' : World} (hh : h.ServesArray v c)

theorem Handler.gives_of_getMethod {f : Ref .function}
    (hgave : Engine.getMethod h property w = .ok (some (.function f)) w') :
    ∃ k, w'.functions.get? f = some k ∧ h.Gives k := by
  obtain ⟨g, hg, hnew⟩ := Run.exists_of_answerWith_eq_ok hgave
  obtain ⟨name, -, hg⟩ := Option.bind_eq_some_iff.1 hg
  cases hnew
  exact ⟨_, Store.get?_alloc_next _ _, .methods hg⟩

theorem Handler.gives_of_getSymbol {f : Ref .function}
    (hgave : Engine.getSymbol h property w = .ok (some (.function f)) w') :
    ∃ k, w'.functions.get? f = some k ∧ h.Gives k := by
  unfold Engine.getSymbol at hgave
  split at hgave
  · rw [Run.get_bind] at hgave
    split at hgave
    · cases hgave
      exact ⟨_, Store.get?_alloc_next _ _, .toPrimitive⟩
    · split at hgave
      · cases hgave
        exact ⟨_, Store.get?_alloc_next _ _, .iterate _⟩
      · cases hgave
  · cases hgave

include hh

/-- Under a property that names no element an array shows its length at most. -/
theorem Handler.ServesArray.getElement_eq_ok (eng : Engine) {items : Array Value}
    (hitems : w.array? v = some items)
    (hproperty : property.propertyName?.bind indexKey? = none) :
    eng.getElement h property w = .ok none w ∨
      eng.getElement h property w = .ok (some (.ofIndex items.size)) w := by
  unfold Engine.getElement
  rw [Run.get_bind, hh.target, hitems]
  cases hname : property.propertyName? with
  | none => exact .inl rfl
  | some name =>
    have hnone : w.element? v name = none := by
      rw [hname, Option.bind_some] at hproperty
      rw [World.element?, World.array?_eq_some_iff.1 hitems]
      simp only [hproperty, Option.bind_none]
    simp only [hnone]
    split
    · exact .inr rfl
    · exact .inl rfl

/-- An accessor of an array gives no callable. -/
theorem Handler.ServesArray.getAccessor_ne_function (f : Ref .function) :
    eng.getAccessor h property w ≠ .ok (some (.function f)) w' := by
  intro hgave
  obtain ⟨m, hm, hrun⟩ := Run.exists_of_answerWith_eq_ok hgave
  obtain ⟨name, -, hgetter⟩ := Option.bind_eq_some_iff.1 hm
  obtain ⟨u, w₁, hcall, hrun⟩ := Run.bind_eq_ok hrun
  obtain ⟨p, hp⟩ := hh.primitive_of_callMethod (Descriptor.exposes_of_accessor? hgetter) hcall
  have hcarry := Engine.carryToScript_of_toScript hrun
  rw [Engine.carryToScript_of_primitive hp] at hcarry
  cases hcarry
  cases u <;> cases hp

/-- What is read under a property that names no element is no callable, or one that the array
gives. -/
theorem Handler.ServesArray.gives (harray : w.HoldsArray v c n)
    (hproperty : property.propertyName?.bind indexKey? = none) {f : Ref .function}
    (hread : eng.getProperty h property w = .ok (.function f) w') :
    ∃ k, w'.functions.get? f = some k ∧ h.Gives k := by
  obtain ⟨items, hitems, -, -⟩ := harray.typed
  obtain ⟨o, w₁, hresolve, hanswer⟩ := Run.bind_eq_ok hread
  obtain ⟨rfl, rfl⟩ : o = some (.function f) ∧ w₁ = w' := by
    cases o <;> cases hanswer
    exact ⟨rfl, rfl⟩
  obtain hpassed | hlength := hh.getElement_eq_ok eng hitems hproperty
  · rw [Engine.resolve, Run.firstAnswer_of_none hpassed] at hresolve
    obtain ⟨x, hx, w₂, hgave⟩ := Run.exists_of_firstAnswer_eq_ok hresolve
    simp only [List.mem_cons, List.not_mem_nil, or_false] at hx
    rcases hx with rfl | rfl | rfl | rfl | rfl
    · obtain ⟨entry, hentry, -⟩ := Run.exists_of_answerWith_eq_ok hgave
      obtain ⟨name, -, hfield⟩ := Option.bind_eq_some_iff.1 hentry
      cases (hh.field?_eq_none name).symm.trans hfield
    · exact Handler.gives_of_getMethod hgave
    · exact Handler.gives_of_getSymbol hgave
    · exact absurd hgave (hh.getAccessor_ne_function f)
    · obtain ⟨g, hg, -⟩ := Run.exists_of_answerWith_eq_ok hgave
      obtain ⟨name, -, hprototype⟩ := Option.bind_eq_some_iff.1 hg
      cases (hh.prototype?_eq_none name).symm.trans hprototype
  · rw [Engine.resolve, Run.firstAnswer_of_some hlength] at hresolve
    cases hresolve

/-- What an array gives to be called does not change its length or the kind of its elements. -/
theorem Handler.Gives.keepsArray_perform {k : Callable} (hk : h.Gives k) (invoke : Invoke)
    (steps : Nat) (this : Script.Value) (args : List Script.Value) :
    (eng.perform invoke steps k this args).Within (World.KeepsArray v c n) := by
  cases hk with
  | iterate kind => exact fun w => .of_objects_eq rfl
  | toPrimitive =>
    change (Run.toPrimitive h.target).Within _
    unfold Run.toPrimitive
    split
    · exact .pure _
    · exact .bind (.of_looks (.hostText h.target [])) fun _ => .pure _
  | @methods name g hg =>
    have hargs : (eng.toHostAll args).Within (World.KeepsArray v c n) :=
      (eng.within_toHostAll args).mono fun _ _ => World.AddsObjects.keepsArray
    refine .bind hargs fun values => ?_
    cases hm : g.select? values.length with
    | none =>
      simp only [Run.orRaise]
      exact fun _ => id
    | some m =>
      simp only [Run.orRaise, pure_bind]
      exact .bind (.of_looks (hh.looks_callMethod eng ⟨name, g, _, hg, hm⟩ _ values))
        eng.keepsArray_toScript

end Calls

/-! ### Any number of uses -/

/-- What a script does with a value through its proxy. -/
inductive Use where
  /-- It makes a request to the handler. -/
  | request (q : Request)
  /-- It reads a method and calls it on a receiver and arguments. -/
  | call (method this : Script.Value) (args : List Script.Value)

namespace Use

/-- What is called goes by a name that is no index: it is a method, and no element. -/
def CallsMethod : Use → Prop
  | request _ => True
  | call method _ _ => method.propertyName?.bind indexKey? = none

variable (eng : Engine) (depth : Nat) (r : Ref .handler) (h : Handler)

/-- What comes of one use. -/
def run : Use → Run Script.Value
  | request q => do (← q.run eng r h).give
  | call method this args => do eng.call depth (← eng.getProperty h method) this args

/-- The world that uses lead to, one after the other. One that fails does not keep the script from
the next. -/
def runAll (uses : List Use) (w : World) : World :=
  uses.foldl (fun w u => Outcome.world (u.run eng depth r h w)) w

variable {eng depth r h} {v : Value} {c : Component} {n : Nat} (hh : h.ServesArray v c)
include hh

/-- One use of an array does not change its length or the kind of its elements. -/
theorem keepsArray_run {u : Use} (hu : u.CallsMethod) :
    (u.run eng depth r h).Within (World.KeepsArray v c n) := by
  have hparts := hh.keepsArray_parts eng n
  cases u with
  | request q =>
    refine .bind (hparts.run r q) fun a => ?_
    cases a with
    | keys ks => exact fun _ => .of_objects_eq rfl
    | _ => exact .pure _
  | call method this args =>
    intro w harray
    have hread := hparts.getProperty method w harray
    cases hs : eng.getProperty h method w with
    | error e w₁ =>
      have hrun : (Use.call method this args).run eng depth r h w = .error e w₁ :=
        Run.bind_of_error hs
      rwa [hrun, ← hs]
    | ok s w₁ =>
      have hrun : (Use.call method this args).run eng depth r h w = eng.call depth s this args w₁ :=
        Run.bind_of_ok hs
      rw [hs] at hread
      rw [hrun]
      refine Engine.related_call (R := World.KeepsArray v c n)
        (fun _ _ _ => .of_objects_eq rfl) (fun f hf => ?_) hread
      subst hf
      obtain ⟨k, hk, hgives⟩ := hh.gives harray hu hs
      exact ⟨k, hk, fun n => hgives.keepsArray_perform hh _ n this args⟩

theorem holdsArray_runAll {uses : List Use} (huses : ∀ u ∈ uses, u.CallsMethod) {w : World}
    (harray : w.HoldsArray v c n) : (runAll eng depth r h uses w).HoldsArray v c n := by
  induction uses generalizing w with
  | nil => exact harray
  | cons u uses ih =>
    exact ih (fun u' hu' => huses u' (List.mem_cons_of_mem u hu'))
      (keepsArray_run hh (huses u List.mem_cons_self) w harray)

end Use

/-! ### Writes -/

/-- A write that an array of a component type and a length takes: the property stands for the index
of an element, and the value crosses as one that the component type holds in a certain form. -/
structure Engine.Fits (eng : Engine) (w : World) (c : Component) (n : Nat)
    (property value : Script.Value) (i : Nat) (x : Value) : Prop where
  /-- The index. -/
  index : property.propertyName?.bind indexKey? = some i
  /-- There is an element. -/
  lt : i < n
  /-- The value that is stored. -/
  coerced : ∃ u w₁, eng.toHost value w = .ok u w₁ ∧ c.coerce? u = some x

section Writes

variable {eng : Engine} {h : Handler} {v : Value} {c : Component} {n i : Nat}
  {property value : Script.Value} {x : Value} {w : World} (hh : h.ServesArray v c)
include hh

/-- An array takes a write that fits. -/
theorem setProperty_of_fits (harray : w.HoldsArray v c n)
    (hfits : eng.Fits w c n property value i x) :
    ∃ w', eng.setProperty h property value w = .ok true w' ∧
      w'.array? v = (w.array? v).map (·.setIfInBounds i x) := by
  obtain ⟨items, hitems, -, -⟩ := harray.typed
  obtain ⟨name, hname, hindex⟩ := Option.bind_eq_some_iff.1 hfits.index
  obtain ⟨u, w₁, hcarried, hcoerced⟩ := hfits.coerced
  have hadds : w.AddsObjects w₁ := (eng.within_toHost value).rel_of_ok hcarried
  have hchange := (hadds.keepsArray harray).elementWrite?_eq_some_iff.2
    ⟨i, x, hindex, hfits.lt, hcoerced, rfl⟩
  have helement : Run.setElement h.target name u w₁ =
      .ok true (w₁.changeItems v (·.setIfInBounds i x)) := by
    rw [hh.target, Run.setElement_eq, hchange]
    rfl
  refine ⟨w₁.changeItems v (·.setIfInBounds i x), ?_, ?_⟩
  · simp only [Engine.setProperty, hname]
    exact (Run.bind_of_ok hcarried).trans (Run.bind_of_ok helement)
  · rw [hitems, Option.map_some]
    exact World.array?_changeItems (hadds.array? hitems) _

/-- Any other write is declined, or its value does not cross. -/
theorem setProperty_of_not_fits (harray : w.HoldsArray v c n)
    (hfits : ¬∃ i x, eng.Fits w c n property value i x) :
    ∃ w', w.AddsObjects w' ∧ (eng.setProperty h property value w = .ok false w' ∨
      ∃ e, eng.toHost value w = .error e w' ∧
        eng.setProperty h property value w = .error e w') := by
  cases hname : property.propertyName? with
  | none => exact ⟨w, refl w, .inl (by simp only [Engine.setProperty, hname]; rfl)⟩
  | some name =>
    cases hcarried : eng.toHost value w with
    | error e w₁ =>
      exact ⟨w₁, addsObjects_of_toHost hcarried,
        .inr ⟨e, rfl, setProperty_of_refused hname hcarried⟩⟩
    | ok u w₁ =>
      have hadds : w.AddsObjects w₁ := (eng.within_toHost value).rel_of_ok hcarried
      have hnone : w₁.elementWrite? v name u = none := by
        refine Option.eq_none_iff_forall_ne_some.2 fun change hchange => hfits ?_
        obtain ⟨i, x, hindex, hlt, hcoerced, -⟩ :=
          (hadds.keepsArray harray).elementWrite?_eq_some_iff.1 hchange
        exact ⟨i, x, by rw [hname]; exact hindex, hlt, u, w₁, hcarried, hcoerced⟩
      have hdeclines : w₁.Declines h name u :=
        ⟨by rw [hh.target, Run.setElement_eq, hnone]; rfl,
          fun entry hentry => by cases (hh.field?_eq_none name).symm.trans hentry⟩
      refine ⟨w₁, hadds, .inl ?_⟩
      simp only [Engine.setProperty, hname]
      refine (Run.bind_of_ok hcarried).trans ((Engine.setNamed_of_declines hdeclines).trans ?_)
      simp only [Engine.setAccessor, hh.setter?_eq_none name]
      rfl

end Writes

/-- An array stays well typed. An array is made for a component type and some items, whatever they
are, and a script makes requests to its handler and calls its methods, in any order and with any
properties and values, whether they succeed or fail. Then the array has as many elements as there
were items, and each is of the kind that the component type holds. A request to write a property is
accepted just if the property stands for the index of an element and the value crosses as one that
can be coerced, and then that element becomes what the value is coerced to. Otherwise the answer is
`false`, or the value does not cross, and nothing changes but that arrays in the value may have been
copied. -/
theorem array_stays_typed (eng : Engine) (depth : Nat) (r : Ref .handler) {h : Handler} {v : Value}
    {c : Component} {items : List Value} {w₀ w : World} {uses : List Use}
    (hmade : Run.newArray c items w₀ = .ok v w) (hh : h.ServesArray v c)
    (huses : ∀ u ∈ uses, u.CallsMethod) :
    let w' := Use.runAll eng depth r h uses w
    w'.HoldsArray v c items.length ∧
    ∀ property value,
      (∀ i x, eng.Fits w' c items.length property value i x →
        ∃ w₁, eng.setProperty h property value w' = .ok true w₁ ∧
          w₁.array? v = (w'.array? v).map (·.setIfInBounds i x)) ∧
      ((¬∃ i x, eng.Fits w' c items.length property value i x) →
        ∃ w₁, w'.AddsObjects w₁ ∧ (eng.setProperty h property value w' = .ok false w₁ ∨
          ∃ e, eng.toHost value w' = .error e w₁ ∧
            eng.setProperty h property value w' = .error e w₁)) := by
  have harray : (Use.runAll eng depth r h uses w).HoldsArray v c items.length :=
    Use.holdsArray_runAll hh huses (World.holdsArray_of_newArray hmade)
  exact ⟨harray, fun property value => ⟨fun i x => setProperty_of_fits hh harray,
    setProperty_of_not_fits hh harray⟩⟩

/-- The handler of an array that is the only object of a world. -/
def onlyArrayHandler (c : Component) : Handler :=
  ⟨.object ⟨0⟩, .build Config.standard (arrayOf c) false, none, none⟩

theorem onlyArrayHandler_servesArray (c : Component) :
    (onlyArrayHandler c).ServesArray (.object ⟨0⟩) c :=
  ⟨rfl, _, rfl⟩

/-- A byte array is made of a byte, a number that is too large and null. After an element was
written that does not fit, one that does, one deleted and a method called, its elements are bytes,
and one more can be written. -/
theorem array_stays_typed_bytes :
    ∃ w, Run.newArray .byte [.byte 1, .integer 300, .null] {} = .ok (.object ⟨0⟩) w ∧
      let w' := Use.runAll (Engine.direct Config.standard) 1 ⟨0⟩ (onlyArrayHandler .byte)
        [.request (.set (.string "0") (.integer 128)), .request (.set (.string "01") (.integer 7)),
          .request (.delete (.string "2")), .call (.string "toString") .undefined []] w
      w'.HoldsArray (.object ⟨0⟩) .byte 3 ∧
      ∃ w₁, (Engine.direct Config.standard).setProperty (onlyArrayHandler .byte) (.integer 2)
        (.long 127) w' = .ok true w₁ := by
  have huses : ∀ u ∈ [Use.request (.set (.string "0") (.integer 128)),
      .request (.set (.string "01") (.integer 7)), .request (.delete (.string "2")),
      .call (.string "toString") .undefined []], u.CallsMethod := by
    simp only [List.mem_cons, List.not_mem_nil, or_false]
    rintro u (rfl | rfl | rfl | rfl)
    · trivial
    · trivial
    · trivial
    · rfl
  obtain ⟨w, hmade⟩ : ∃ w, Run.newArray .byte [.byte 1, .integer 300, .null] {} =
      .ok (.object ⟨0⟩) w := ⟨_, rfl⟩
  obtain ⟨harray, hset⟩ :=
    array_stays_typed (Engine.direct Config.standard) 1 ⟨0⟩ hmade
      (onlyArrayHandler_servesArray .byte) huses
  obtain ⟨w₁, htaken, -⟩ := (hset (.integer 2) (.long 127)).1 2 (.byte 127)
    ⟨by decide, by decide, .long 127, _, rfl, by decide⟩
  exact ⟨w, hmade, harray, w₁, htaken⟩

end Membrane
