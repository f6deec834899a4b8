import Membrane.Proofs.Operations
import Membrane.Proofs.Slots

/-!
# Computations that spare a slot

A computation spares a slot if it neither reads nor writes it: the slot holds afterwards what it
held before, and started with another value in the slot the computation ends in the same way, in the
same world but for that value. A computation composed of computations that spare a slot spares it
too.

To carry values across and to run the methods of the built-in classes spares every slot, as long as
the engine decides what may cross without a look at it.

## Main definitions

* `Run.Spares`: a computation that neither reads nor writes a slot.
* `Engine.Spares`: an engine whose decisions and methods spare a slot.

## Main results

* `Run.Spares.holdsOfParts`, `Run.Spares.get_bind`: composed computations.
* `Engine.Spares.toHost`, `Engine.Spares.toScript`, `Engine.Spares.callMethod`: crossing and
  methods.
-/

namespace Membrane

open Host (Value)

/-- Worlds that differ in what a slot holds differ in a field. -/
theorem World.sameButFields_putSlot (w : World) (s : Slot) (b : Value) :
    w.SameButFields (w.putSlot s b) where
  data _ := data?_putSlot
  cls _ := class?_putSlot
  text _ _ := hostText?_putSlot _
  arrays := rfl
  handlers := rfl

/-- The outcome of a computation with the world reached changed. -/
def Outcome.mapWorld {α : Type} (change : World → World) : Outcome α → Outcome α
  | .ok a w => .ok a (change w)
  | .error e w => .error e (change w)

@[simp] theorem Outcome.world_mapWorld {α : Type} (change : World → World) (r : Outcome α) :
    Outcome.world (r.mapWorld change) = change r.world := by
  cases r <;> rfl

namespace Run

variable {α β : Type} {s : Slot}

/-- A computation neither reads nor writes a slot that is there. -/
structure Spares (s : Slot) (x : Run α) : Prop where
  /-- The slot holds afterwards what it held before. -/
  keeps : ∀ w a, w.slot? s = some a → (Outcome.world (x w)).slot? s = some a
  /-- What the slot holds makes no difference. -/
  ignores : ∀ w a, w.slot? s = some a → ∀ b,
    x (w.putSlot s b) = Outcome.mapWorld (·.putSlot s b) (x w)

namespace Spares

variable {x : Run α} {f : α → Run β}

theorem pure (a : α) : (Pure.pure a : Run α).Spares s := ⟨fun _ _ h => h, fun _ _ _ _ => rfl⟩

theorem throw (e : Halt) : (MonadExcept.throw e : Run α).Spares s :=
  ⟨fun _ _ h => h, fun _ _ _ _ => rfl⟩

theorem raise (f : Fault) : (Run.raise f : Run α).Spares s := throw _

theorem bind (hx : x.Spares s) (hf : ∀ a, (f a).Spares s) : (x >>= f).Spares s := by
  constructor
  · intro w a hslot
    have hkept := hx.keeps w a hslot
    cases hw : x w with
    | ok c w₁ =>
      rw [hw] at hkept
      rw [bind_of_ok hw]
      exact (hf c).keeps w₁ a hkept
    | error e w₁ =>
      rw [hw] at hkept
      rwa [bind_of_error hw]
  · intro w a hslot b
    have hkept := hx.keeps w a hslot
    have hfirst := hx.ignores w a hslot b
    cases hw : x w with
    | ok c w₁ =>
      rw [hw] at hkept hfirst
      rw [bind_of_ok hw, bind_of_ok hfirst]
      exact (hf c).ignores w₁ a hkept b
    | error e w₁ =>
      rw [hw] at hfirst
      rw [bind_of_error hw, bind_of_error hfirst]
      rfl

/-- What is read of a world does not depend on the slot. -/
theorem get_bind {f : World → Run α} (hf : ∀ w, (f w).Spares s)
    (hput : ∀ w b, f (w.putSlot s b) = f w) : (MonadState.get >>= f).Spares s := by
  refine ⟨fun w => (hf w).keeps w, fun w a hslot b => ?_⟩
  change f (w.putSlot s b) (w.putSlot s b) = _
  rw [hput]
  exact (hf w).ignores w a hslot b

theorem modify {change : World → World}
    (hkeeps : ∀ w a, w.slot? s = some a → (change w).slot? s = some a)
    (hput : ∀ w a, w.slot? s = some a → ∀ b,
      change (w.putSlot s b) = (change w).putSlot s b) :
    (modify change : Run PUnit).Spares s :=
  ⟨hkeeps, fun w a hslot b => congrArg (EStateM.Result.ok PUnit.unit) (hput w a hslot b)⟩

/-- Composed computations do not look at slots. -/
theorem holdsOfParts : HoldsOfParts fun _ x => x.Spares s where
  pure := .pure
  bind := .bind
  look hf hsame := .get_bind hf fun w b => hsame _ _ (w.sameButFields_putSlot s b)

theorem changeData (v : Value) (change : Host.Data → Host.Data) :
    (MonadStateOf.modifyGet fun w : World => (PUnit.unit, w.changeData v change) :
      Run PUnit).Spares s :=
  .modify (fun w _ hslot => (w.slot?_changeData s v change).trans hslot)
    fun w _ _ b => w.changeData_putSlot s b v change

theorem newFunction (c : Callable) : (Run.newFunction c).Spares s :=
  ⟨fun _ _ h => h, fun _ _ _ _ => rfl⟩

/-- A new object leaves the slots of those that are there alone. -/
theorem newObject (o : Host.Object) : (Run.newObject o).Spares s := by
  constructor
  · intro w a hslot
    obtain ⟨o', ho', hfield⟩ := World.slot?_eq_some_iff.1 hslot
    exact World.slot?_eq_some_iff.2 ⟨o', Store.get?_alloc_of_some o ho', hfield⟩
  · intro w a hslot b
    obtain ⟨o', ho', -⟩ := World.slot?_eq_some_iff.1 hslot
    change EStateM.Result.ok (Value.object (w.putSlot s b).objects.next)
      { w with objects := (w.putSlot s b).objects.alloc o } = _
    rw [World.putSlot, World.changeFields, Store.next_modify, ← Store.modify_alloc ho']
    rfl

end Spares

end Run

/-- The operations of the built-in classes spare every slot. -/
theorem Host.BuiltIn.spares_run {s : Slot} (b : BuiltIn) (hasher : Hasher) (receiver : Value)
    (args : List Value) : (b.run hasher receiver args).Spares s :=
  HoldsOfParts.run (P := fun _ x => x.Spares s)
    { Run.Spares.holdsOfParts with
      raise := fun _ => .raise _
      exhausted := .throw _
      change := fun v {f} _ => .changeData v f } b hasher receiver args

/-! ### Crossing -/

/-- The decisions of an engine and the methods of the host spare a slot. -/
structure Engine.Spares (eng : Engine) (s : Slot) : Prop where
  /-- Which host values may cross does not depend on the slot. -/
  refusesHost : ∀ w b v, eng.refusesHost (w.putSlot s b) v = eng.refusesHost w v
  /-- Which script values may cross does not depend on the slot. -/
  refusesScript : ∀ w b v, eng.refusesScript (w.putSlot s b) v = eng.refusesScript w v
  /-- Code of the embedder neither reads nor writes the slot. -/
  method : ∀ code receiver args, (eng.method code receiver args).Spares s

/-- An engine that lets every value cross and has no code of the embedder. -/
theorem Engine.spares_direct (config : Config) (s : Slot) : (Engine.direct config).Spares s :=
  ⟨fun _ _ _ => rfl, fun _ _ _ => rfl, fun _ _ _ => .pure _⟩

namespace Engine

variable (eng : Engine) {s : Slot}

theorem spares_describe (c : Host.Class) (isStatic : Bool) :
    (eng.describe c isStatic).Spares s := by
  constructor
  · intro w a hslot
    obtain ⟨d, ds, h⟩ := eng.describe_eq_ok c isStatic w
    rw [h]
    exact hslot
  · intro w a _ b
    have hfound : (w.putSlot s b).descriptors = w.descriptors := rfl
    unfold describe
    rw [Run.get_bind, Run.get_bind, hfound]
    cases w.descriptors.find? fun d => d.isStatic == isStatic && decide (d.target = c) <;> rfl

theorem spares_newHandler (target : Value) : (eng.newHandler target).Spares s :=
  Run.Spares.holdsOfParts.newHandler (.raise _)
    (Run.Spares.holdsOfParts.raiseAbout (.throw _) (fun _ => .raise _) target [])
    eng.spares_describe
    fun _ => ⟨fun _ _ h => h, fun _ _ _ _ => rfl⟩

namespace Spares

variable {eng} (heng : eng.Spares s)
include heng

theorem toScript (v : Value) : (eng.toScript v).Spares s := by
  refine .get_bind (fun w => ?_) fun w b => by rw [heng.refusesHost]
  split
  · exact .raise _
  · exact Run.Spares.holdsOfParts.carryToScript (fun r => eng.spares_newHandler (.object r)) v

theorem toHost (v : Script.Value) : (eng.toHost v).Spares s := by
  refine .get_bind (fun w => ?_) fun w b => by rw [heng.refusesScript]; rfl
  split
  · exact .raise _
  · exact Run.Spares.holdsOfParts.carryToHost (.throw _) (fun _ => .newObject _) _ v

theorem callMethod (m : Host.Method) (receiver : Value) (args : List Value) :
    (eng.callMethod m receiver args).Spares s := by
  unfold Engine.callMethod
  split
  · exact Host.BuiltIn.spares_run _ _ receiver args
  · exact heng.method _ receiver args

end Spares

end Engine

end Membrane
