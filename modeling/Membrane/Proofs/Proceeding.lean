import Membrane.Proofs.Callbacks
import Membrane.Proofs.Captures
import Membrane.Proofs.Events

/-!
# What a script cannot reach

Nothing that a script does through proxies reaches its own arrays, and no handler ever answers for
another value than the one it was made for. Traps and functions change what host objects hold,
fields and what handlers have captured, but no object goes away, and what they give as an array is
always a new one. The methods of the host know no script arrays and no handlers. Only the embedder's
code could write to them, so as long as it does not, arrays have the items they had and handlers the
targets, whatever happens and however much.

This is proved once of every relation of worlds that holds wherever the objects there were are still
there, the arrays have the same items and the handlers the same targets: it is kept by all that
happens if the embedder's code keeps it.

## Main definitions

* `World.KeepsArrays`: the script arrays there were have the same items.
* `World.Proceeds`: what the program itself leaves of objects, arrays and handlers.
* `Engine.CodeWithin`: that the embedder's code keeps a relation of worlds.

## Main results

* `Engine.CodeWithin.callTrap`, `Engine.CodeWithin.call`: traps and all callables, however deep they
  call each other.
* `Engine.CodeWithin.callsWithin`: so all that can be a callback.
* `Event.within_after`, `Event.within_runAll`: one event, and any number of them.
* `Event.keepsArrays_runAll`, `Event.keepsTargets_runAll`: arrays, and the targets of handlers.
-/

namespace Membrane

open Host (Value)

/-- The script arrays there were have the same items. -/
def World.KeepsArrays (w w' : World) : Prop :=
  ∀ r items, w.arrays.get? r = some items → w'.arrays.get? r = some items

instance : IsPreorder World World.KeepsArrays where
  refl _ := fun _ _ h => h
  trans _ _ _ h h' := fun r items hr => h' r items (h r items hr)

/-- The objects there were are still there, script arrays have the items they had, and handlers
answer for the values they did. -/
structure World.Proceeds (w w' : World) : Prop where
  /-- The objects. -/
  objects : w.KeepsObjects w'
  /-- The arrays. -/
  arrays : w.KeepsArrays w'
  /-- The handlers. -/
  targets : w.KeepsTargets w'

instance : IsPreorder World World.Proceeds where
  refl w := ⟨fun _ => id, refl w, refl w⟩
  trans w w₁ w₂ h h' := ⟨fun v => h'.objects v ∘ h.objects v,
    IsTrans.trans w w₁ w₂ h.arrays h'.arrays, IsTrans.trans w w₁ w₂ h.targets h'.targets⟩

namespace World

variable {w w' : World}

theorem Adds.proceeds (h : w.Adds w') : w.Proceeds w' where
  objects _ hv r hr := (hv r hr).imp fun o => h.objects r o
  arrays := h.arrays
  targets r k hr := ⟨k, h.handlers r k hr, rfl⟩

theorem AddsObjects.proceeds (h : w.AddsObjects w') : w.Proceeds w' := h.adds.proceeds

theorem AddsHandlers.proceeds (h : w.AddsHandlers w') : w.Proceeds w' := h.adds.proceeds

theorem KeepsArrays.of_eq (h : w'.arrays = w.arrays) : w.KeepsArrays w' := by
  intro r items hr
  rwa [h]

theorem Proceeds.of_eq (hobjects : w'.objects = w.objects) (harrays : w'.arrays = w.arrays)
    (hhandlers : w'.handlers = w.handlers) : w.Proceeds w' :=
  ⟨fun _ hv => hv.congr hobjects, .of_eq harrays, .of_handlers_eq hhandlers⟩

/-- What a handler keeps for itself does not matter. -/
theorem Proceeds.of_modify {r : Ref .handler} {change : Handler → Handler}
    (hobjects : w'.objects = w.objects) (harrays : w'.arrays = w.arrays)
    (hhandlers : w'.handlers = w.handlers.modify r change)
    (hchange : ∀ h, (change h).target = h.target) : w.Proceeds w' := by
  refine ⟨fun _ hv => hv.congr hobjects, .of_eq harrays, fun r' h hr' => ?_⟩
  rw [hhandlers]
  by_cases hrr' : r = r'
  · subst hrr'
    rw [Store.get?_modify_self, hr']
    exact ⟨_, rfl, hchange h⟩
  · rw [Store.get?_modify_of_ne _ _ hrr']
    exact ⟨h, hr', rfl⟩

/-- To change an object is not to remove it. -/
theorem proceeds_modify (w : World) (r : Ref .object) (change : Host.Object → Host.Object) :
    w.Proceeds { w with objects := w.objects.modify r change } := by
  refine ⟨fun v hv r' hr' => ?_, .of_eq rfl, .of_handlers_eq rfl⟩
  obtain ⟨o, ho⟩ := hv r' hr'
  by_cases hrr' : r = r'
  · subst hrr'
    exact ⟨change o, by rw [Store.get?_modify_self, ho, Option.map_some]⟩
  · exact ⟨o, by rwa [Store.get?_modify_of_ne _ _ hrr']⟩

theorem proceeds_changeData (w : World) (v : Value) (change : Host.Data → Host.Data) :
    w.Proceeds (w.changeData v change) := by
  cases v with
  | object r => exact w.proceeds_modify r _
  | _ => exact refl w

theorem proceeds_setField (w : World) (v : Value) (name : String) (value : Value) :
    w.Proceeds (w.setField v name value).2 := by
  unfold setField
  split
  · split
    · exact w.proceeds_modify _ _
    · exact refl w
  · exact refl w

/-- A relation that holds wherever a world proceeds allows writes. -/
theorem AllowsWrites.of_proceeds {R : World → World → Prop} (hR : ∀ w w', w.Proceeds w' → R w w') :
    AllowsWrites R where
  changeData w v change _ := hR _ _ (w.proceeds_changeData v change)
  setField w v name u := hR _ _ (w.proceeds_setField v name u)
  putStatic _ _ _ _ := hR _ _ (.of_eq rfl rfl rfl)

end World

namespace Run

theorem proceeds_newScriptArray (items : List Script.Value) :
    (newScriptArray items).Within World.Proceeds :=
  (adds_newScriptArray items).mono fun _ _ => World.Adds.proceeds

theorem proceeds_newFunction (k : Callable) : (newFunction k).Within World.Proceeds :=
  (adds_newFunction k).mono fun _ _ => World.Adds.proceeds

theorem proceeds_newObject (o : Host.Object) : (newObject o).Within World.Proceeds :=
  (within_newObject o).mono fun _ _ => World.AddsObjects.proceeds

theorem proceeds_newRecord (properties : List (Script.Key × Script.Value)) :
    (newRecord properties).Within World.Proceeds :=
  (adds_newRecord properties).mono fun _ _ => World.Adds.proceeds

theorem proceeds_newIterator (target : Value) (kind : IterationKind) :
    (newIterator target kind).Within World.Proceeds :=
  (adds_newIterator target kind).mono fun _ _ => World.Adds.proceeds

theorem proceeds_trapFunctions (r : Ref .handler) : (trapFunctions r).Within World.Proceeds := by
  intro w
  unfold trapFunctions
  rw [get_bind]
  cases (w.handlers.get? r).bind Handler.traps with
  | some traps => exact refl w
  | none => exact .of_modify rfl rfl rfl fun _ => rfl

theorem proceeds_uniqueKeys (r : Ref .handler) : (uniqueKeys r).Within World.Proceeds := by
  intro w
  obtain hworld | ⟨h, keys, -, -, -, hrun⟩ := uniqueKeys_cases r w
  · rw [hworld]
    exact refl w
  · rw [hrun]
    exact .of_modify rfl rfl rfl fun _ => rfl

theorem proceeds_takeItem (state : Ref .iterator) : (takeItem state).Within World.Proceeds := by
  intro w
  unfold takeItem
  rw [get_bind]
  cases (w.iterators.get? state).getD [] with
  | nil => exact refl w
  | cons item rest => exact .of_eq rfl rfl rfl

end Run

namespace Engine

section Crossing

variable (eng : Engine)

theorem proceeds_newHandler (target : Value) : (eng.newHandler target).Within World.Proceeds :=
  (eng.within_newHandler target).mono fun _ _ => World.AddsHandlers.proceeds

theorem proceeds_toScript (v : Value) : (eng.toScript v).Within World.Proceeds :=
  (eng.within_toScript v).mono fun _ _ => World.AddsHandlers.proceeds

theorem proceeds_toHost (v : Script.Value) : (eng.toHost v).Within World.Proceeds :=
  (eng.within_toHost v).mono fun _ _ => World.AddsObjects.proceeds

theorem proceeds_itemToScript (item : IteratorItem) :
    (eng.itemToScript item).Within World.Proceeds := by
  cases item with
  | value v => exact eng.proceeds_toScript v
  | pair k v =>
    exact .bind (eng.proceeds_toScript k) fun _ => .bind (eng.proceeds_toScript v) fun _ =>
      Run.proceeds_newScriptArray _

theorem proceeds_advance (state : Ref .iterator) : (eng.advance state).Within World.Proceeds := by
  refine .bind (Run.proceeds_takeItem state) fun item? => ?_
  cases item? with
  | none => exact Run.proceeds_newRecord _
  | some item =>
    exact .bind (eng.proceeds_itemToScript item) fun _ => Run.proceeds_newRecord _

end Crossing

/-! ### Code of the embedder -/

/-- The embedder's code keeps a relation of worlds. Where it calls callables, it does so as long as
they do. -/
structure CodeWithin (eng : Engine) (R : World → World → Prop) : Prop where
  /-- Methods of the host. -/
  method : ∀ code receiver args, (eng.method code receiver args).Within R
  /-- Native functions. -/
  native : ∀ invoke : Invoke, (∀ r this args, (invoke r this args).Within R) →
    ∀ code captured this args, (eng.native invoke code captured this args).Within R

/-- Where no code has a meaning, all relations are kept. -/
theorem codeWithin_direct (config : Config) (R : World → World → Prop) [IsPreorder World R] :
    (direct config).CodeWithin R where
  method _ _ _ := .pure _
  native _ _ _ _ _ _ := .pure _

namespace CodeWithin

variable {eng : Engine} {R : World → World → Prop} [IsPreorder World R] (hs : eng.CodeWithin R)
  (hR : ∀ w w', w.Proceeds w' → R w w')
include hs hR

theorem callMethod (m : Host.Method) (receiver : Value) (args : List Value) :
    (eng.callMethod m receiver args).Within R :=
  (World.AllowsWrites.of_proceeds hR).callMethod hs.method m receiver args

/-- The parts of a handler's answers. -/
theorem parts (h : Handler) : h.HoldsOfParts eng fun _ x => x.Within R :=
  (World.AllowsWrites.of_proceeds hR).parts hs.method (fun v => (eng.proceeds_toScript v).mono hR)
    (fun s => (eng.proceeds_toHost s).mono hR) (fun k => (Run.proceeds_newFunction k).mono hR)
    (fun r => (Run.proceeds_uniqueKeys r).mono hR) h

/-- A call of a trap. -/
theorem callTrap (r : Ref .handler) (t : Trap) (args : List Script.Value) :
    (eng.callTrap r t args).Within R :=
  within_callTrap (hs.parts hR) (fun items => (Run.proceeds_newScriptArray items).mono hR) r t args

omit hs in
/-- A prototype function writes to host objects only, and so it keeps what its callback keeps. -/
theorem function {invoke : Invoke} (hinvoke : ∀ r this args, (invoke r this args).Within R)
    (f : Prototype.Function) (steps : Nat) (target : Value) (this : Script.Value)
    (args : List Script.Value) :
    (f.run eng invoke steps target this args).Within R := by
  have hchange (w : World) (v : Value) (change : Host.Data → Host.Data) :
      R w (w.changeData v change) := hR _ _ (w.proceeds_changeData v change)
  have hparts : Prototype.HoldsOfParts eng invoke (Arguments.get args 0)
      fun _ x => x.Safe (fun _ => True) R (fun _ => True) :=
    Run.Safe.functionParts (fun _ _ _ _ => trivial)
      (fun w ledger held => hR _ _ (w.adds_rest ledger held).proceeds) (fun _ _ => trivial)
      (fun v => Run.Safe.iff_within.2 ((eng.proceeds_toScript v).mono hR))
      (fun v => Run.Safe.iff_within.2 ((eng.proceeds_toHost v).mono hR))
      (fun items => Run.Safe.iff_within.2 ((Run.proceeds_newScriptArray items).mono hR))
      (fun properties => Run.Safe.iff_within.2 ((Run.proceeds_newRecord properties).mono hR))
      (fun target kind => Run.Safe.iff_within.2 ((Run.proceeds_newIterator target kind).mono hR))
      fun r _ this args => Run.Safe.iff_within.2 (hinvoke r this args)
  cases f with
  | ofList f =>
    exact Run.Safe.iff_within.1 (hparts.listFunction
      (Run.Safe.iff_within.2 (within_listItems target)) f
      (fun _ _ => .modify fun w _ => hchange w target _)
      fun _ _ => .modify fun w _ => hchange w target _)
  | ofSet f =>
    exact Run.Safe.iff_within.1 (hparts.setFunction f
      (Run.Safe.iff_within.2 (within_setMembers target))
      fun _ _ => .modify fun w _ => hchange w target _)
  | ofWrapper f =>
    exact Run.Within.holdsOfParts.wrapperFunction ((eng.proceeds_toScript target).mono hR)
      (.of_looks (.raiseAbout target _ [])) f

theorem callGroup (group : Descriptor.MethodGroup) (receiver : Value) (args : List Script.Value) :
    (eng.callGroup group receiver args).Within R := by
  have hcarry (v : Script.Value) : (eng.toHost v).Within R := (eng.proceeds_toHost v).mono hR
  refine .bind (Run.Within.holdsOfParts.mapM hcarry args) fun values => ?_
  cases group.select? values.length with
  | none => exact .raise _
  | some m =>
    exact .bind (.pure m) fun m => .bind (hs.callMethod hR m _ values) fun v =>
      (eng.proceeds_toScript v).mono hR

/-- What a callable does keeps a relation if those it calls do. -/
theorem perform {invoke : Invoke} (hinvoke : ∀ r this args, (invoke r this args).Within R)
    (steps : Nat) (k : Callable) (this : Script.Value) (args : List Script.Value) :
    (eng.perform invoke steps k this args).Within R := by
  cases k with
  | native name code captured => exact hs.native invoke hinvoke code captured this args
  | prototype f target => exact function hR hinvoke f steps target this args
  | methods group receiver => exact hs.callGroup hR group receiver args
  | next state => exact (eng.proceeds_advance state).mono hR
  | itself => exact .pure this
  | iterate target kind => exact (Run.proceeds_newIterator target kind).mono hR
  | toPrimitive target =>
    change (Run.toPrimitive target).Within _
    unfold Run.toPrimitive
    split
    · exact .pure _
    · exact .bind (.of_looks (.hostText target [])) fun _ => .pure _
  | trap r t => exact hs.callTrap hR r t args

/-- A callable keeps a relation, however deep callables call each other. -/
theorem invoke (n : Nat) (r : Ref .function) (this : Script.Value) (args : List Script.Value) :
    (eng.invoke n r this args).Within R := by
  induction n generalizing r this args with
  | zero => exact .throw _
  | succ n ih =>
    refine .bind .get fun w => ?_
    split
    · next k _ => exact hs.perform hR ih n k this args
    · exact .raise _

/-- A call of any script value. -/
theorem call (depth : Nat) (callee this : Script.Value) (args : List Script.Value) :
    (eng.call depth callee this args).Within R :=
  Run.within_call (fun w ledger held => hR _ _ (w.adds_rest ledger held).proceeds) fun r _ =>
    hs.invoke hR depth r this args

/-- Whatever is called back keeps a relation, wherever it is called. -/
theorem callsWithin (n : Nat) (callback : Script.Value) :
    CallsWithin (fun _ => True) R (eng.invoke n) callback :=
  .of_forall fun r _ => hs.invoke hR n r

end CodeWithin

/-- The embedder's code leaves script arrays alone. Where it calls callables, it does so as long as
they do. -/
structure SparesArrays (eng : Engine) : Prop where
  /-- Methods of the host. -/
  method : ∀ code receiver args, (eng.method code receiver args).Within World.KeepsArrays
  /-- Native functions. -/
  native : ∀ invoke : Invoke, (∀ r this args, (invoke r this args).Within World.KeepsArrays) →
    ∀ code captured this args, (eng.native invoke code captured this args).Within World.KeepsArrays

end Engine

namespace Event

variable {eng : Engine} {R : World → World → Prop} [IsPreorder World R] (hs : eng.CodeWithin R)
  (hR : ∀ w w', w.Proceeds w' → R w w')

include hs hR in
/-- Whatever happens keeps a relation that the embedder's code keeps. -/
theorem within_after (w : World) (e : Event) : R w (e.after eng w) := by
  cases e with
  | new c => exact hR _ _ (Run.proceeds_newObject _ w)
  | list items => exact hR _ _ (Run.proceeds_newObject _ w)
  | set values => exact hR _ _ (Run.proceeds_newObject _ w)
  | map entries => exact hR _ _ (Run.proceeds_newObject _ w)
  | array c items => exact hR _ _ (Run.proceeds_newObject _ w)
  | classRef c => exact hR _ _ (Run.proceeds_newObject _ w)
  | proxy target => exact hR _ _ (eng.proceeds_newHandler target w)
  | handlerObject r =>
    exact hR _ _ (Run.Within.bind (Run.proceeds_trapFunctions r)
      (fun _ => Run.proceeds_newRecord _) w)
  | native name code captured => exact hR _ _ (Run.proceeds_newFunction _ w)
  | scriptArray items => exact hR _ _ (Run.proceeds_newScriptArray items w)
  | record properties => exact hR _ _ (Run.proceeds_newRecord properties w)
  | hold nodes => exact hR _ _ (.of_eq rfl rfl rfl)
  | method m receiver args => exact hs.callMethod hR m receiver args w
  | trap r t args => exact hs.callTrap hR r t args w
  | call depth callee this args => exact hs.call hR depth callee this args w

include hs hR in
/-- So does all that happens, however much it is. -/
theorem within_runAll (events : List Event) (w : World) : R w (runAll eng events w) := by
  induction events generalizing w with
  | nil => exact refl w
  | cons e events ih => exact IsTrans.trans w _ _ (within_after hs hR w e) (ih _)

/-- Arrays have the items they had. -/
theorem keepsArrays_runAll (hs : eng.SparesArrays) (events : List Event) (w : World) :
    w.KeepsArrays (runAll eng events w) :=
  within_runAll ⟨hs.method, hs.native⟩ (fun _ _ h => h.arrays) events w

/-- Handlers answer for the values they did. -/
theorem keepsTargets_runAll (hs : eng.CodeWithin World.KeepsTargets) (events : List Event)
    (w : World) : w.KeepsTargets (runAll eng events w) :=
  within_runAll hs (fun _ _ h => h.targets) events w

end Event

end Membrane
