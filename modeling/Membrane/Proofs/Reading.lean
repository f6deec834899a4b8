import Membrane.Proofs.Callbacks
import Membrane.Proofs.FunctionParts
import Membrane.Proofs.Requests
import Membrane.Proofs.Resolution

/-!
# What changes nothing

Most of what a script asks of a host object is only read. What is read is copied: items that come
back as an array are items of a new script array, and script arrays among the arguments become new
lists. The objects that were there stay exactly as they were, whether there is an answer or a fault.
Code of others may be called on the way, and does what it does: the callback of a function, and the
accessor method that a property may be read by.

## Main definitions

* `World.Preserves`: that no host object and no static field has changed.
* `Prototype.Function.writes`, `Prototype.Function.calls`: whether a prototype function writes, and
  whether it calls a callback.
* `World.ReadsByGetter`: when a property is read by an accessor method.

## Main results

* `Prototype.Function.preserves_run`: a function that does not write.
* `Engine.preserves_getProperty`: a property that is not read by an accessor method.
* `reads_preserve`: nothing that only reads changes a host object.
-/

namespace Membrane

open Host (Value)

/-- The host objects there were and all static fields are exactly as they were. -/
structure World.Preserves (w w' : World) : Prop where
  /-- The objects have the same class, the same storage and the same fields. -/
  objects : ∀ r o, w.objects.get? r = some o → w'.objects.get? r = some o
  /-- The static fields are the same. -/
  statics : w'.statics = w.statics

instance : IsPreorder World World.Preserves where
  refl _ := ⟨fun _ _ h => h, rfl⟩
  trans _ _ _ h h' :=
    ⟨fun r o ho => h'.objects r o (h.objects r o ho), h'.statics.trans h.statics⟩

namespace World

variable {w w' : World}

theorem Preserves.of_eq (hobjects : w'.objects = w.objects) (hstatics : w'.statics = w.statics) :
    w.Preserves w' :=
  ⟨fun _ _ h => by rwa [hobjects], hstatics⟩

theorem AddsObjects.preserves (h : w.AddsObjects w') : w.Preserves w' :=
  ⟨h.objects, by rw [h.rest]⟩

theorem AddsHandlers.preserves (h : w.AddsHandlers w') : w.Preserves w' :=
  .of_eq h.alike.objects h.alike.statics

/-- The storage of an object is as it was. -/
theorem Preserves.data? (h : w.Preserves w') {v : Value} {data : Host.Data}
    (hdata : w.data? v = some data) : w'.data? v = some data := by
  obtain ⟨r, o, rfl, ho, rfl⟩ := exists_object_of_data? hdata
  simp [World.data?, World.object?, Value.object?, h.objects r o ho]

end World

/-! ### Functions -/

/-- Whether a prototype function changes what it is bound to. -/
def Prototype.Function.writes : Prototype.Function → Bool
  | ofList f => f.writes
  | ofSet f => f.writes
  | ofWrapper _ => false

/-- Whether a prototype function calls a callback. -/
def Prototype.Function.calls : Prototype.Function → Bool
  | ofList f =>
    f ∈ [.every, .filter, .find, .findIndex, .findLast, .findLastIndex, .forEach, .map, .reduce,
      .reduceRight, .someOf, .sort, .toSorted]
  | ofSet f => f = .forEach
  | ofWrapper _ => false

/-- A function that calls no callback does not depend on what calling one does. -/
theorem Prototype.Function.run_of_calls_eq_false {f : Prototype.Function} (hf : f.calls = false)
    (eng : Engine) (invoke invoke' : Invoke) (steps : Nat) (target : Value) (this : Script.Value)
    (args : List Script.Value) :
    f.run eng invoke steps target this args = f.run eng invoke' steps target this args := by
  cases f with
  | ofList f =>
    cases f with
    | every | filter | find | findIndex | findLast | findLastIndex | forEach | map | reduce
    | reduceRight | someOf | sort | toSorted => cases hf
    | _ => rfl
  | ofSet f =>
    cases f with
    | forEach => cases hf
    | _ => rfl
  | ofWrapper f => rfl

section Functions

theorem Engine.preserves_toScript (eng : Engine) (v : Value) :
    (eng.toScript v).Within World.Preserves :=
  (eng.within_toScript v).mono fun _ _ => World.AddsHandlers.preserves

theorem Engine.preserves_toHost (eng : Engine) (v : Script.Value) :
    (eng.toHost v).Within World.Preserves :=
  (eng.within_toHost v).mono fun _ _ => World.AddsObjects.preserves

theorem World.Adds.preserves {w w' : World} (h : w.Adds w') : w.Preserves w' :=
  ⟨h.objects, h.statics⟩

/-- A function that does not write leaves all objects as they are if its callback does. -/
theorem Prototype.Function.preserves_run {f : Prototype.Function} (hf : f.writes = false)
    {I : World → Prop} {invoke : Invoke} {args : List Script.Value}
    (hcalls : CallsWithin I World.Preserves invoke (Arguments.get args 0)) (eng : Engine)
    (steps : Nat) (target : Value) (this : Script.Value) :
    (f.run eng invoke steps target this args).Within (World.Under I World.Preserves) := by
  -- All that is done between the calls of the callback adds to what is there.
  have hpart {α : Type} {x : Run α} (hx : x.Within World.Adds) :
      x.Safe (fun _ => True) (World.Under I World.Preserves) fun _ => True :=
    Run.Safe.iff_within.2 (hcalls.within_of_adds hx (hx.mono fun _ _ => World.Adds.preserves))
  have hparts : Prototype.HoldsOfParts eng invoke (Arguments.get args 0)
      fun _ x => x.Safe (fun _ => True) (World.Under I World.Preserves) fun _ => True :=
    Run.Safe.functionParts (fun _ _ _ _ => trivial)
      (fun w ledger held hw => ⟨hcalls.lasts _ _ (w.adds_rest ledger held) hw, .of_eq rfl rfl⟩)
      (fun _ _ => trivial)
      (fun v => hpart ((eng.within_toScript v).mono fun _ _ => World.AddsHandlers.adds))
      (fun v => hpart ((eng.within_toHost v).mono fun _ _ => World.AddsObjects.adds))
      (fun items => hpart (Run.adds_newScriptArray items))
      (fun properties => hpart (Run.adds_newRecord properties))
      (fun target kind => hpart (Run.adds_newIterator target kind))
      fun r hr this args => Run.Safe.iff_within.2 (hcalls.calls r hr this args)
  cases f with
  | ofList f =>
    refine Run.Safe.iff_within.1 (hparts.listFunction
      (Run.Safe.iff_within.2 (within_listItems target)) f (fun hwrites => ?_) fun hwrites => ?_)
    · cases hf.symm.trans hwrites
    · cases hf.symm.trans hwrites
  | ofSet f =>
    refine Run.Safe.iff_within.1 (hparts.setFunction f
      (Run.Safe.iff_within.2 (within_setMembers target)) fun hwrites => ?_)
    cases hf.symm.trans hwrites
  | ofWrapper f =>
    exact Run.Within.holdsOfParts.wrapperFunction (Run.Safe.iff_within.1 (hparts.toScript target))
      (.of_looks (.raiseAbout target _ [])) f

/-- A function that neither writes nor calls leaves all objects as they are. -/
theorem Prototype.Function.preserves_run_of_calls_eq_false {f : Prototype.Function}
    (hf : f.writes = false) (hcalls : f.calls = false) (eng : Engine) (invoke : Invoke)
    (steps : Nat) (target : Value) (this : Script.Value) (args : List Script.Value) :
    (f.run eng invoke steps target this args).Within World.Preserves := by
  have hnothing : CallsWithin (fun _ => True) World.Preserves (fun _ _ _ => pure .undefined)
      (Arguments.get args 0) := .of_forall fun _ _ _ _ => .pure _
  rw [run_of_calls_eq_false hcalls eng invoke fun _ _ _ => pure .undefined]
  exact fun w => (preserves_run hf hnothing eng steps target this w trivial).2

end Functions

/-! ### Reading properties -/

/-- A property is read by an accessor method: there is one, and the property is offered neither as
an element nor as a field or method. -/
def World.ReadsByGetter (w : World) (h : Handler) (property : Script.Value) : Prop :=
  ∃ name, property.propertyName? = some name ∧ (h.descriptor.getter? name).isSome ∧
    ¬w.ShowsElement h.target name ∧ h.descriptor.field? name = none ∧
    (h.descriptor.isOverride name = true ∨ h.descriptor.method? name = none)

/-- Where one of several resolvers answers, further ones make no difference. -/
theorem Run.firstAnswer_append {α : Type} {xs ys : List (Run (Option α))} {w : World}
    (hanswer : ∀ w', firstAnswer xs w ≠ .ok none w') :
    firstAnswer (xs ++ ys) w = firstAnswer xs w := by
  induction xs generalizing w with
  | nil => exact absurd rfl (hanswer w)
  | cons x xs ih =>
    refine bind_eq_bind rfl fun o w₁ hx => ?_
    cases o with
    | some a => rfl
    | none =>
      refine ih fun w' hrest => hanswer w' ?_
      exact (bind_of_ok hx).trans hrest

namespace Engine

variable (eng : Engine) (h : Handler) (property : Script.Value)

/-- To look at a target leaves all objects as they are. -/
theorem preserves_reads : h.HoldsOfReads eng fun _ x => x.Within World.Preserves where
  toHoldsOfParts := Run.Within.holdsOfParts
  readField _ _ _ hf := .bind .get fun _ => hf _
  readPrototype _ :=
    Run.Within.holdsOfParts.readPrototype (.throw _) .raise (fun _ _ => .of_eq rfl rfl) _ _
  toScript := eng.preserves_toScript
  toHost := eng.preserves_toHost
  newFunction _ _ := .of_eq rfl rfl
  exhausted := .throw _
  uniqueKeys := Run.within_uniqueKeys fun _ _ => .of_eq rfl rfl

/-- The resolvers that are asked before accessor methods are. -/
def firstResolvers : List (Run (Option Script.Value)) :=
  [eng.getElement h property, eng.getField h property, getMethod h property, getSymbol h property]

theorem holdsOfFirstResolvers {P : ∀ α : Type, Run α → Prop} (hreads : h.HoldsOfReads eng P) :
    ∀ x ∈ eng.firstResolvers h property, P _ x := by
  simp only [firstResolvers, List.mem_cons, List.not_mem_nil, or_false]
  rintro x (rfl | rfl | rfl | rfl)
  · exact hreads.getElement property
  · exact hreads.getField property
  · exact hreads.getMethod property
  · exact hreads.getSymbol property

variable {eng h property}

/-- Where there is an accessor method but the property is not read by it, a resolver that is asked
before has an answer. -/
theorem firstResolvers_answer {w : World} (hnot : ¬w.ReadsByGetter h property)
    (hgetter : (property.propertyName?.bind h.descriptor.getter?).isSome) (w' : World) :
    Run.firstAnswer (eng.firstResolvers h property) w ≠ .ok none w' := by
  obtain ⟨m, hm⟩ := Option.isSome_iff_exists.1 hgetter
  obtain ⟨name, hname, hm⟩ := Option.bind_eq_some_iff.1 hm
  have hsymbol := (answersIff_getSymbol h property w).firstAnswer_cons .firstAnswer_nil
  have hmethod := (answersIff_getMethod h property w).firstAnswer_cons hsymbol
  have hfield := (eng.answersIff_getField h property w).firstAnswer_cons hmethod
  have hfirst := (eng.answersIff_getElement h property w).firstAnswer_cons hfield
  refine hfirst.answers ?_ w'
  by_contra hnone
  simp only [hname, Option.some.injEq, exists_eq_left', not_or, not_and] at hnone
  obtain ⟨helement, hfield, hmethod, -⟩ := hnone
  refine hnot ⟨name, hname, Option.isSome_of_eq_some hm, helement, by simpa using hfield, ?_⟩
  cases hover : h.descriptor.isOverride name with
  | true => exact .inl rfl
  | false => exact .inr (by simpa using hmethod hover)

/-- Where a property is not read by an accessor method, it is read by looking at the target, so that
what keeps a relation there is enough. -/
theorem within_getProperty {R : World → World → Prop} [IsPreorder World R] {w : World}
    (hreads : h.HoldsOfReads eng fun _ x => x.Within R) (hnot : ¬w.ReadsByGetter h property) :
    R w (Outcome.world (eng.getProperty h property w)) := by
  cases hgetter : property.propertyName?.bind h.descriptor.getter? with
  | none =>
    have hnone (m : Host.Method) (hm : (Request.get property).accessor? h = some m) :
        (eng.callMethod m h.target []).Within R := by
      rw [Request.accessor?, hgetter] at hm
      cases hm
    exact hreads.getProperty hnone w
  | some m =>
    have hanswer (w' : World) : Run.firstAnswer (eng.firstResolvers h property) w ≠ .ok none w' :=
      firstResolvers_answer hnot (Option.isSome_of_eq_some hgetter) w'
    have hrun : eng.getProperty h property w = (Run.firstAnswer (eng.firstResolvers h property) >>=
        fun o => pure (o.getD .undefined)) w :=
      Run.bind_eq_bind (Run.firstAnswer_append hanswer) fun _ _ _ => rfl
    have hfirst := hreads.firstAnswer (eng.holdsOfFirstResolvers h property hreads)
    rw [hrun]
    exact hfirst.bind (fun _ => .pure _) w

/-- A property that is not read by an accessor method is read without any object being changed. -/
theorem preserves_getProperty {w : World} (hnot : ¬w.ReadsByGetter h property) :
    w.Preserves (Outcome.world (eng.getProperty h property w)) :=
  within_getProperty (eng.preserves_reads h) hnot

/-- A call of the trap that reads a property, if no accessor method reads it. -/
theorem preserves_callTrap_get {r : Ref .handler} {args : List Script.Value} {w : World}
    (hnot : ∀ h, w.handlers.get? r = some h → ¬w.ReadsByGetter h (Arguments.get args 1)) :
    w.Preserves (Outcome.world (eng.callTrap r .get args w)) := by
  unfold callTrap
  rw [Run.get_bind]
  cases hh : (w.handlers.get? r).filter fun _ => w.holds r.node with
  | none => exact refl w
  | some h => exact preserves_getProperty (hnot h (Option.filter_eq_some_iff.1 hh).1)

/-- A call of the trap that tells whether a property is there. -/
theorem preserves_callTrap_has (r : Ref .handler) (args : List Script.Value) :
    (eng.callTrap r .has args).Within World.Preserves := by
  refine .bind .get fun w => ?_
  split
  · exact .raise _
  · next h _ => exact .bind ((eng.preserves_reads h).hasProperty _) fun _ => .pure _

/-- A call of the trap that lists the keys. -/
theorem preserves_callTrap_ownKeys (r : Ref .handler) (args : List Script.Value) :
    (eng.callTrap r .ownKeys args).Within World.Preserves := by
  refine .bind .get fun w => ?_
  split
  · exact .raise _
  · next h _ => exact .bind ((eng.preserves_reads h).ownKeys r) fun _ _ => .of_eq rfl rfl

end Engine

/-- What only reads changes nothing: whether it has an answer or fails, every host object that was
there has the same storage and the same fields as before, and so does every class. That holds, on
any target and with any arguments, of every function of lists and sets but those that write. Those
that call a callback are to be given one that changes nothing, wherever it is called under a
condition that it keeps and that lasts. It holds of the traps that tell whether a property is there
and which keys there are; and of the trap that reads a property, unless an accessor method reads
it. -/
theorem reads_preserve (eng : Engine) :
    (∀ (f : Prototype.Function) (invoke : Invoke) (steps : Nat) (target : Value)
      (this : Script.Value) (args : List Script.Value), f.writes = false →
      (f.calls = false → (f.run eng invoke steps target this args).Within World.Preserves) ∧
      ∀ I : World → Prop, CallsWithin I World.Preserves invoke (Arguments.get args 0) →
        ∀ w, I w → w.Preserves (Outcome.world (f.run eng invoke steps target this args w))) ∧
    ∀ (r : Ref .handler) (args : List Script.Value),
      (eng.callTrap r .has args).Within World.Preserves ∧
      (eng.callTrap r .ownKeys args).Within World.Preserves ∧
      ∀ w : World, (∀ h, w.handlers.get? r = some h → ¬w.ReadsByGetter h (Arguments.get args 1)) →
        w.Preserves (Outcome.world (eng.callTrap r .get args w)) :=
  ⟨fun _ invoke steps target this args hf =>
    ⟨fun hcalls => Prototype.Function.preserves_run_of_calls_eq_false hf hcalls eng invoke steps
      target this args,
    fun _ hcalls w hw => (Prototype.Function.preserves_run hf hcalls eng steps target this w hw).2⟩,
    fun r args => ⟨Engine.preserves_callTrap_has r args, Engine.preserves_callTrap_ownKeys r args,
      fun _ => Engine.preserves_callTrap_get⟩⟩

/-- An engine whose code takes every element. -/
def Engine.accepting : Engine :=
  { Engine.direct Config.standard with native := fun _ _ _ _ _ => pure (.boolean true) }

/-- A list of two numbers still has them after it was filtered by a callable that takes every
element. -/
theorem reads_preserve_filtered :
    let w : World := { World.ofItems [.integer 1, .integer 2] with
      functions := ({} : Store .function Callable).alloc (.native "accept" 0 []) }
    (Outcome.world (Prototype.ListFunction.filter.run Engine.accepting (Engine.accepting.invoke 1) 3
      onlyList .undefined [.function ⟨0⟩] w)).data? onlyList =
        some (.list #[.integer 1, .integer 2]) := by
  intro w
  have hcalls : CallsWithin (·.functions.get? ⟨0⟩ = some (.native "accept" 0 [])) World.Preserves
      (Engine.accepting.invoke 1) (.function ⟨0⟩) :=
    .of_perform fun _ _ w hw => ⟨hw, refl w⟩
  have hpreserves := ((reads_preserve Engine.accepting).1 (.ofList .filter)
    (Engine.accepting.invoke 1) 3 onlyList .undefined [.function ⟨0⟩] rfl).2 _ hcalls w rfl
  exact hpreserves.data? rfl

end Membrane
