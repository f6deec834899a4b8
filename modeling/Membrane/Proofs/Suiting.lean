import Membrane.Proofs.FunctionParts
import Membrane.Proofs.HandlerParts
import Membrane.Proofs.Soundness
import Membrane.Proofs.Writing

/-!
# Functions on targets they are for

A function of lists or sets that is bound to a target of another shape has a fault of its own for
it. No script ever sees one: in a sound world no request, no call of a callable and no method of the
host raises such a fault, and what they leave is sound again. All that is asked of the embedder's
code is that it leaves things sound, too, and raises no such faults itself.

## Main definitions

* `Fault.IsMisplaced`: the faults of functions on targets of another shape.
* `Run.Sound`: computations that keep all that is sound and raise certain faults only.
* `Engine.Behaves`: what is asked of the embedder's code.

## Main results

* `Engine.Behaves.parts`, `Engine.Behaves.function`: handlers and prototype functions are safe.
* `Engine.Behaves.callTrap`, `Engine.Behaves.invoke`: so are traps and all callables, however deep
  they call each other.
-/

namespace Membrane

open Host (Component Data Value)

/-- A fault of a function of lists or sets that is bound to a target of another shape. -/
def Fault.IsMisplaced (f : Fault) : Prop :=
  ∃ target, f = .wrongTarget target "List" ∨ f = .wrongTarget target "Set"

theorem Fault.not_isMisplaced {f : Fault} (h : f.kind ≠ .internal) : ¬f.IsMisplaced := by
  rintro ⟨target, rfl | rfl⟩
  · exact h rfl
  · exact h rfl

/-- A computation that, started in a sound world, keeps all that is sound and raises faults of `Q`
only. -/
abbrev Run.Sound (config : Config) (Q : Fault → Prop) {α : Type} (x : Run α) : Prop :=
  x.Safe (World.Sound config) (World.Continues config) Q

/-- The embedder's code leaves things sound and raises faults of `Q` only. Where it calls callables,
it does so as long as they do. -/
structure Engine.Behaves (eng : Engine) (Q : Fault → Prop) : Prop where
  /-- Host values that may not cross. -/
  refusesHost : ∀ w v f, eng.refusesHost w v = some f → Q f
  /-- Script values that may not cross. -/
  refusesScript : ∀ w v f, eng.refusesScript w v = some f → Q f
  /-- Methods of the host. -/
  method : ∀ code receiver args, (eng.method code receiver args).Sound eng.config Q
  /-- Native functions. -/
  native : ∀ invoke : Invoke, (∀ r this args, (invoke r this args).Sound eng.config Q) →
    ∀ code captured this args, (eng.native invoke code captured this args).Sound eng.config Q

/-- Where every value crosses and no code has a meaning, all code behaves. -/
theorem Engine.behaves_direct (config : Config) (Q : Fault → Prop) :
    (Engine.direct config).Behaves Q where
  refusesHost _ _ _ h := by cases h
  refusesScript _ _ _ h := by cases h
  method _ _ _ := .pure _
  native _ _ _ _ _ _ := .pure _

/-- Writes keep worlds sound. -/
theorem World.allowsWrites_continues {config : Config} :
    World.AllowsWrites (World.Continues config) where
  changeData w v _ hkind := w.continues_changeData v fun data _ => hkind data
  setField w := w.continues_setField
  putStatic _ _ _ _ := .of_eq rfl rfl rfl rfl

theorem Run.faultless_uniqueKeys (r : Ref .handler) : (Run.uniqueKeys r).Faultless := by
  refine .bind (.of_ok fun w => ⟨w, w, rfl⟩) fun w => ?_
  split
  · exact .pure _
  · next h _ =>
    split
    · exact .pure _
    · exact .bind (Run.Faultless.holdsOfParts.capturedKeys nofun h) fun _ =>
        .bind (.of_ok fun _ => ⟨_, _, rfl⟩) fun _ => .pure _

/-! ### Crossing and methods -/

namespace Engine.Behaves

variable {eng : Engine} {Q : Fault → Prop} (hb : eng.Behaves Q)
  (hQ : ∀ f : Fault, ¬f.IsMisplaced → Q f)

/-- What continues a sound world is sound. -/
theorem sound_later {config : Config} (w w' : World) (hw : w.Sound config)
    (h : w.Continues config w') : w'.Sound config :=
  h.sound hw

theorem holdsOfParts (config : Config) (Q : Fault → Prop) :
    Run.HoldsOfParts fun _ x => x.Sound config Q :=
  Run.Safe.holdsOfParts sound_later

include hQ in
theorem newHandler (eng : Engine) (target : Value) :
    (eng.newHandler target).Sound eng.config Q := by
  refine ⟨fun w hw => ?_, fun w hw f w' h => ?_⟩
  · obtain ⟨f, -, herror⟩ | ⟨r, w', hok, hcontinues⟩ := newHandler_cases hw target
    · rw [herror]
      exact refl w
    · rw [hok]
      exact hcontinues
  · obtain ⟨e, he, herror⟩ | ⟨r, w', hok, -⟩ := newHandler_cases hw target
    · obtain ⟨he', -⟩ := EStateM.Result.error.inj (herror.symm.trans h)
      obtain rfl | rfl := he
      · cases he'
        exact hQ _ (by simp [Fault.IsMisplaced])
      · obtain ⟨text, rfl⟩ := World.exists_of_haltAbout_eq_fault he'
        exact hQ _ (by simp [Fault.IsMisplaced])
    · cases hok.symm.trans h

include hb hQ in
theorem toScript (v : Value) : (eng.toScript v).Sound eng.config Q := by
  have hcarry : (eng.carryToScript v).Sound eng.config Q :=
    (holdsOfParts eng.config Q).carryToScript (fun r => newHandler hQ eng (.object r)) v
  refine .get_bind fun w hw => ?_
  cases hrefuses : eng.refusesHost w v with
  | none => exact ⟨hcarry.within w hw, hcarry.fault w hw⟩
  | some f =>
    refine ⟨refl w, fun g w' h => ?_⟩
    cases h
    exact hb.refusesHost w v f hrefuses

include hb in
theorem toHost (v : Script.Value) : (eng.toHost v).Sound eng.config Q := by
  refine .get_bind fun w hw => ?_
  cases hrefuses : eng.refusesScript w v with
  | none =>
    have hcarry : (v.carryToHost (w.arrays.size + 1)).Sound eng.config Q :=
      (holdsOfParts eng.config Q).carryToHost .exhausted
        (fun items => .of_within (Run.continues_newList items) nofun) _ v
    exact ⟨hcarry.within w hw, hcarry.fault w hw⟩
  | some f =>
    refine ⟨refl w, fun g w' h => ?_⟩
    cases h
    exact hb.refusesScript w v f hrefuses

include hb hQ

theorem callMethod (m : Host.Method) (receiver : Value) (args : List Value) :
    (eng.callMethod m receiver args).Sound eng.config Q := by
  unfold Engine.callMethod
  split
  · refine Host.HoldsOfParts.run (P := fun _ x => x.Sound eng.config Q) ?_ _ _ receiver args
    exact
      { holdsOfParts eng.config Q with
        raise := fun hf => .raise (hQ _ (Fault.not_isMisplaced hf))
        exhausted := .exhausted
        change := fun v _ hf => .modify fun w _ => w.continues_changeData v fun data _ => hf data }
  · exact hb.method _ receiver args

/-! ### Handlers -/

omit hb hQ in
/-- A list is read without a fault. -/
theorem safe_listItems {R : World → World → Prop} [IsPreorder World R] (target : Value) :
    (listItems target).Safe (fun w => (w.list? target).isSome) R Q := by
  refine ⟨fun w _ => within_listItems target w, fun w hw f w' h => ?_⟩
  obtain ⟨items, hitems⟩ := Option.isSome_iff_exists.1 hw
  rw [listItems_apply, hitems] at h
  cases h

omit hb hQ in
/-- A set is read without a fault. -/
theorem safe_setMembers {R : World → World → Prop} [IsPreorder World R] (target : Value) :
    (setMembers target).Safe (fun w => (w.set? target).isSome) R Q := by
  refine ⟨fun w _ => within_setMembers target w, fun w hw f w' h => ?_⟩
  obtain ⟨members, hmembers⟩ := Option.isSome_iff_exists.1 hw
  unfold setMembers at h
  rw [Run.get_bind, hmembers] at h
  cases h

omit hb hQ in
/-- To read a prototype property that suits the target is to count elements or to make a callable
that suits it. -/
theorem readPrototype (config : Config) (f : Prototype.Function) (target : Value) :
    (f.read target).Safe (fun w => w.Sound config ∧ f.Suits w target) (World.Continues config)
      Q := by
  have hA (w w' : World) (hw : w.Sound config ∧ f.Suits w target) (h : w.Continues config w') :
      w'.Sound config ∧ f.Suits w' target :=
    ⟨h.sound hw.1, hw.2.later h.kinds⟩
  unfold Prototype.Function.read
  split
  · exact .bind hA ((safe_listItems target).mono fun w hw => hw.2) fun _ => .pure _
  · exact .bind hA ((safe_listItems target).mono fun w hw => hw.2) fun _ => .pure _
  · exact .bind hA ((safe_setMembers target).mono fun w hw => hw.2) fun _ => .pure _
  · refine ⟨fun w hw => World.continues_alloc fun f' target' heq => ?_, nofun⟩
    cases heq
    exact hw.2

/-- The parts of a handler's answers are safe if the handler suits its target. -/
theorem parts (h : Handler) :
    h.HoldsOfParts eng fun _ x => x.Safe (fun w => w.Sound eng.config ∧ h.Suits w)
      (World.Continues eng.config) Q where
  toHoldsOfParts := Run.Safe.holdsOfParts fun w w' hw hc => ⟨hc.sound hw.1, hw.2.later hc.kinds⟩
  readField _ _ _ hf := .get_bind fun w hw => ⟨(hf _).within w hw, (hf _).fault w hw⟩
  readPrototype {name f} hf :=
    (readPrototype eng.config f h.target).mono fun w hw => ⟨hw.1, hw.2 name f hf⟩
  toScript v := (hb.toScript hQ v).mono fun _ hw => hw.1
  toHost v := (hb.toHost v).mono fun _ hw => hw.1
  exhausted := .exhausted
  newFunction hk := .of_within (Run.continues_newFunction hk) nofun
  callMethod _ args := (hb.callMethod hQ _ h.target args).mono fun _ hw => hw.1
  setElement name v := .of_within (World.allowsWrites_continues.setElement h.target name v)
      fun w f w' hfault => by
    obtain hrun | ⟨_, hrun⟩ := Run.setElement_cases h.target name v w <;>
      cases hrun.symm.trans hfault
  writeField _ v := .of_within (World.allowsWrites_continues.writeField _ h.target v)
      fun w f w' hfault => by
    obtain hrun | ⟨_, hrun⟩ := Run.writeField_cases _ h.target v w <;> cases hrun.symm.trans hfault
  deleteProperty property :=
    .of_within (World.allowsWrites_continues.deleteProperty h.target property)
        fun w f w' hfault => by
      obtain ⟨_, _, hrun⟩ := Run.deleteProperty_eq_ok h.target property w
      cases hrun.symm.trans hfault
  uniqueKeys r := .of_within (Run.continues_uniqueKeys r) (Run.faultless_uniqueKeys r)

/-- A call of a trap. -/
theorem callTrap (r : Ref .handler) (t : Trap) (args : List Script.Value) :
    (eng.callTrap r t args).Sound eng.config Q := by
  refine .get_bind fun w hw => ?_
  cases hr : (w.handlers.get? r).filter fun _ => w.holds r.node with
  | none =>
    refine ⟨refl w, fun f w' h => ?_⟩
    cases h
    exact hQ _ (by simp [Fault.IsMisplaced])
  | some h =>
    have hsuits : h.Suits w := hw.handlers r h (Option.filter_eq_some_iff.1 hr).1
    have hparts := hb.parts hQ h
    have hsafe {x : Run Script.Value} (hx : x.Safe (fun w => w.Sound eng.config ∧ h.Suits w)
        (World.Continues eng.config) Q) : w.Continues eng.config (Outcome.world (x w)) ∧
          ∀ f w', x w = .error (.fault f) w' → Q f :=
      ⟨hx.within w ⟨hw, hsuits⟩, hx.fault w ⟨hw, hsuits⟩⟩
    cases t with
    | get => exact hsafe (hparts.getProperty _)
    | deleteProperty => exact hsafe (hparts.bind (hparts.deleteProperty _) fun _ => hparts.pure _)
    | has => exact hsafe (hparts.bind (hparts.hasProperty _) fun _ => hparts.pure _)
    | ownKeys =>
      exact hsafe (hparts.bind (hparts.ownKeys r) fun _ =>
        .of_within (Run.continues_newScriptArray _) nofun)
    | set => exact hsafe (hparts.bind (hparts.setProperty _ _) fun _ => hparts.pure _)

/-! ### Callables -/

/-- A prototype function is safe if it suits its target. -/
theorem function {invoke : Invoke}
    (hinvoke : ∀ r this args, (invoke r this args).Sound eng.config Q) (f : Prototype.Function)
    (steps : Nat) (target : Value) (this : Script.Value) (args : List Script.Value) :
    (f.run eng invoke steps target this args).Safe
      (fun w => w.Sound eng.config ∧ f.Suits w target) (World.Continues eng.config) Q := by
  have hA (w w' : World) (hw : w.Sound eng.config ∧ f.Suits w target)
      (h : w.Continues eng.config w') : w'.Sound eng.config ∧ f.Suits w' target :=
    ⟨h.sound hw.1, hw.2.later h.kinds⟩
  have hparts : Prototype.HoldsOfParts eng invoke (Arguments.get args 0) fun _ x =>
      x.Safe (fun w => w.Sound eng.config ∧ f.Suits w target) (World.Continues eng.config) Q :=
    Run.Safe.functionParts hA (fun _ _ _ => .of_eq rfl rfl rfl rfl)
      (fun f hf => hQ f (Fault.not_isMisplaced hf))
      (fun v => (hb.toScript hQ v).mono fun _ hw => hw.1)
      (fun v => (hb.toHost v).mono fun _ hw => hw.1)
      (fun items => .of_within (Run.continues_newScriptArray items) nofun)
      (fun properties => .of_within (Run.continues_newRecord properties) nofun)
      (fun target kind => .of_within (Run.continues_newIterator target kind) nofun)
      fun r _ this args => (hinvoke r this args).mono fun _ hw => hw.1
  cases f with
  | ofList f =>
    refine hparts.listFunction ((safe_listItems target).mono fun w hw => hw.2) f
      (fun _ items => .modify fun w hw => ?_) fun _ change => .modify fun w hw => ?_
    · obtain ⟨old, hold⟩ := Option.isSome_iff_exists.1 hw.2
      refine w.continues_changeData target fun data hdata => ?_
      cases hdata.symm.trans (World.list?_eq_some_iff.1 hold)
      rfl
    · exact w.continues_changeData target fun data _ => Data.kind_changeItems change data
  | ofSet f =>
    refine hparts.setFunction f ((safe_setMembers target).mono fun w hw => hw.2)
      fun _ change => .modify fun w hw => ?_
    exact w.continues_changeData target fun data _ => Data.kind_changeMembers change data
  | ofWrapper f =>
    have hraise (s : String) : Run.Safe (α := Script.Value)
        (fun w => w.Sound eng.config ∧ (Prototype.Function.ofWrapper f).Suits w target)
        (World.Continues eng.config) Q (Run.raise (.wrongTarget s "primitive")) :=
      .raise (hQ _ (by simp [Fault.IsMisplaced]))
    have hfault := hparts.raiseAbout hparts.exhausted hraise target []
    exact hparts.wrapperFunction (hparts.toScript target) hfault f

theorem callGroup (group : Descriptor.MethodGroup) (receiver : Value) (args : List Script.Value) :
    (eng.callGroup group receiver args).Sound eng.config Q := by
  have hparts := holdsOfParts eng.config Q
  refine hparts.bind (hparts.mapM hb.toHost args) fun values => ?_
  cases group.select? values.length with
  | none => exact .raise (hQ _ (Fault.not_isMisplaced nofun))
  | some m =>
    exact hparts.bind (hparts.pure m) fun m =>
      hparts.bind (hb.callMethod hQ m _ values) (hb.toScript hQ)

theorem advance (state : Ref .iterator) : (eng.advance state).Sound eng.config Q := by
  have hparts := holdsOfParts eng.config Q
  have hitem (item : IteratorItem) : (eng.itemToScript item).Sound eng.config Q := by
    cases item with
    | value v => exact hb.toScript hQ v
    | pair k v =>
      exact hparts.bind (hb.toScript hQ k) fun _ => hparts.bind (hb.toScript hQ v) fun _ =>
        .of_within (Run.continues_newScriptArray _) nofun
  have htake : (Run.takeItem state).Sound eng.config Q := by
    refine .get_bind fun w _ => ?_
    cases (w.iterators.get? state).getD [] with
    | nil => exact ⟨refl w, nofun⟩
    | cons item rest => exact ⟨.of_eq rfl rfl rfl rfl, nofun⟩
  have hrecord (value : Script.Value) (done : Bool) :
      (Run.newRecord [(.string "value", value), (.string "done", .boolean done)]).Sound
        eng.config Q :=
    .of_within (Run.continues_newRecord _) nofun
  refine hparts.bind htake fun item? => ?_
  cases item? with
  | none => exact hrecord .undefined true
  | some item => exact hparts.bind (hitem item) fun s => hrecord s false

/-- What a callable does is safe if the callable suits its target and those it calls are safe. -/
theorem perform {invoke : Invoke} (hinvoke : ∀ r this args, (invoke r this args).Sound eng.config Q)
    (steps : Nat) (k : Callable) (this : Script.Value) (args : List Script.Value) :
    (eng.perform invoke steps k this args).Safe (fun w => w.Sound eng.config ∧ k.Suits w)
      (World.Continues eng.config) Q := by
  cases k with
  | native name code captured =>
    exact (hb.native invoke hinvoke code captured this args).mono fun _ hw => hw.1
  | prototype f target =>
    exact (hb.function hQ hinvoke f steps target this args).mono fun w hw =>
      ⟨hw.1, hw.2 f target rfl⟩
  | methods group receiver => exact (hb.callGroup hQ group receiver args).mono fun _ hw => hw.1
  | next state => exact (hb.advance hQ state).mono fun _ hw => hw.1
  | itself => exact .pure this
  | iterate target kind => exact .of_within (Run.continues_newIterator target kind) nofun
  | toPrimitive target =>
    have htext := (holdsOfParts eng.config Q).hostText .exhausted target []
    change (Run.toPrimitive target).Safe _ _ _
    unfold Run.toPrimitive
    split
    · exact .pure _
    · exact (Run.Safe.bind sound_later htext fun _ => .pure _).mono fun _ hw => hw.1
  | trap r t => exact (hb.callTrap hQ r t args).mono fun _ hw => hw.1

/-- A callable of a sound world is safe, however deep callables call each other. -/
theorem invoke (n : Nat) (r : Ref .function) (this : Script.Value) (args : List Script.Value) :
    (eng.invoke n r this args).Sound eng.config Q := by
  induction n generalizing r this args with
  | zero => exact .exhausted
  | succ n ih =>
    refine .get_bind fun w hw => ?_
    cases hk : w.functions.get? r with
    | none =>
      refine ⟨refl w, fun f w' h => ?_⟩
      cases h
      exact hQ _ (Fault.not_isMisplaced nofun)
    | some k =>
      have hperform := hb.perform hQ ih n k this args
      have hsuits := hw.functions r k hk
      exact ⟨hperform.within w ⟨hw, hsuits⟩, hperform.fault w ⟨hw, hsuits⟩⟩

/-- A call of any script value. -/
theorem call (depth : Nat) (callee this : Script.Value) (args : List Script.Value) :
    (eng.call depth callee this args).Sound eng.config Q :=
  .call sound_later (fun _ _ _ => .of_eq rfl rfl rfl rfl)
    (fun _ => hQ _ (Fault.not_isMisplaced nofun)) fun r _ => hb.invoke hQ depth r this args

end Engine.Behaves

end Membrane
