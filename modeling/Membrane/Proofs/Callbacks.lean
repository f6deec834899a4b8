import Membrane.Iteration
import Membrane.Proofs.Calling

/-!
# What is asked of a callback

Some of what a function does depends on what its callback does. The callback is asked to behave
where the function calls it, not in every world there could be: under a condition that it keeps
itself, and that lasts through what the function does between its calls. All of that adds to what is
there. Of a callable of a script, that it is the one that is looked up is such a condition.

## Main definitions

* `World.Adds`: that everything there was is as it was.
* `World.Under`: a relation of worlds under a condition, and the condition itself.
* `CallsWithin`: that a callback keeps a relation under a condition that lasts.

## Main results

* `CallsWithin.within_call`, `CallsWithin.within_of_adds`: what a function does.
* `CallsWithin.of_perform`: the callables that a script makes.
-/

namespace Membrane

open Host (Value)

/-- Everything there was is as it was, the ledger and what is held aside. -/
structure World.Adds (w w' : World) : Prop where
  /-- The host objects. -/
  objects : ∀ r o, w.objects.get? r = some o → w'.objects.get? r = some o
  /-- The script arrays. -/
  arrays : ∀ r items, w.arrays.get? r = some items → w'.arrays.get? r = some items
  /-- The plain script objects. -/
  records : ∀ r d, w.records.get? r = some d → w'.records.get? r = some d
  /-- The callables. -/
  functions : ∀ r c, w.functions.get? r = some c → w'.functions.get? r = some c
  /-- The handlers. -/
  handlers : ∀ r h, w.handlers.get? r = some h → w'.handlers.get? r = some h
  /-- The iterators. -/
  iterators : ∀ r items, w.iterators.get? r = some items → w'.iterators.get? r = some items
  /-- The static fields. -/
  statics : w'.statics = w.statics

instance : IsPreorder World World.Adds where
  refl _ := ⟨fun _ _ => id, fun _ _ => id, fun _ _ => id, fun _ _ => id, fun _ _ => id,
    fun _ _ => id, rfl⟩
  trans _ _ _ h h' := ⟨fun r o => h'.objects r o ∘ h.objects r o,
    fun r items => h'.arrays r items ∘ h.arrays r items,
    fun r d => h'.records r d ∘ h.records r d, fun r c => h'.functions r c ∘ h.functions r c,
    fun r k => h'.handlers r k ∘ h.handlers r k,
    fun r items => h'.iterators r items ∘ h.iterators r items, h'.statics.trans h.statics⟩

/-! ### What adds to a world -/

section Adding

variable {w w' : World}

theorem World.AddsHandlers.adds (h : w.AddsHandlers w') : w.Adds w' := by
  have hhandlers := h.handlers
  rw [h.rest] at hhandlers ⊢
  exact ⟨fun _ _ => id, fun _ _ => id, fun _ _ => id, fun _ _ => id, hhandlers, fun _ _ => id, rfl⟩

theorem World.AddsObjects.adds (h : w.AddsObjects w') : w.Adds w' := by
  have hobjects := h.objects
  rw [h.rest] at hobjects ⊢
  exact ⟨hobjects, fun _ _ => id, fun _ _ => id, fun _ _ => id, fun _ _ => id, fun _ _ => id, rfl⟩

/-- What is held and what is in the ledger does not matter. -/
theorem World.adds_rest (w : World) (ledger : Ledger) (held : List Node) :
    w.Adds { w with ledger := ledger, held := held } :=
  ⟨fun _ _ => id, fun _ _ => id, fun _ _ => id, fun _ _ => id, fun _ _ => id, fun _ _ => id, rfl⟩

namespace Run

theorem adds_hold (nodes : List Node) : (hold nodes).Within World.Adds :=
  fun w => w.adds_rest w.ledger _

theorem adds_release (v : Script.Value) : (release v).Within World.Adds :=
  fun w => w.adds_rest _ w.held

theorem adds_newScriptArray (items : List Script.Value) :
    (newScriptArray items).Within World.Adds := fun _ =>
  ⟨fun _ _ => id, fun _ _ => Store.get?_alloc_of_some _, fun _ _ => id, fun _ _ => id,
    fun _ _ => id, fun _ _ => id, rfl⟩

theorem adds_newFunction (c : Callable) : (newFunction c).Within World.Adds := fun _ =>
  ⟨fun _ _ => id, fun _ _ => id, fun _ _ => id, fun _ _ => Store.get?_alloc_of_some _,
    fun _ _ => id, fun _ _ => id, rfl⟩

theorem adds_newRecord (properties : List (Script.Key × Script.Value)) :
    (newRecord properties).Within World.Adds := fun _ =>
  ⟨fun _ _ => id, fun _ _ => id, fun _ _ => Store.get?_alloc_of_some _, fun _ _ => id,
    fun _ _ => id, fun _ _ => id, rfl⟩

theorem adds_newIterator (target : Value) (kind : IterationKind) :
    (newIterator target kind).Within World.Adds := by
  intro w
  have hstate : w.Adds { w with iterators := w.iterators.alloc (w.iteratorItems target kind) } :=
    ⟨fun _ _ => id, fun _ _ => id, fun _ _ => id, fun _ _ => id, fun _ _ => id,
      fun _ _ => Store.get?_alloc_of_some _, rfl⟩
  have hrest : (do
      let next ← newFunction (.next w.iterators.next)
      let itself ← newFunction .itself
      newRecord [(.string "next", next), (.symbol .iterator, itself)] :
        Run Script.Value).Within World.Adds :=
    .bind (adds_newFunction _) fun _ => .bind (adds_newFunction _) fun _ => adds_newRecord _
  exact IsTrans.trans _ _ _ hstate (hrest _)

end Run

end Adding

/-! ### Callbacks -/

/-- Under a condition, a relation of worlds holds, and so does the condition again. -/
def World.Under (I : World → Prop) (R : World → World → Prop) (w w' : World) : Prop :=
  I w → I w' ∧ R w w'

instance (I : World → Prop) (R : World → World → Prop) [IsPreorder World R] :
    IsPreorder World (World.Under I R) where
  refl w hw := ⟨hw, refl w⟩
  trans w w₁ w₂ h h' hw := ⟨(h' (h hw).1).1, IsTrans.trans w w₁ w₂ (h hw).2 (h' (h hw).1).2⟩

/-- Called under a condition, a callback keeps a relation of worlds and the condition, which lasts
as long as everything there was is as it was. -/
structure CallsWithin (I : World → Prop) (R : World → World → Prop) (invoke : Invoke)
    (callback : Script.Value) : Prop where
  /-- The condition lasts. -/
  lasts : ∀ w w', w.Adds w' → I w → I w'
  /-- The calls. -/
  calls : ∀ r, callback = .function r → ∀ this args, (invoke r this args).Within (World.Under I R)

namespace CallsWithin

variable {α : Type} {I : World → Prop} {R : World → World → Prop} {invoke : Invoke}
  {callback : Script.Value}

/-- Without a condition it is asked to keep the relation wherever it is called. -/
theorem of_forall (h : ∀ r, callback = .function r → ∀ this args, (invoke r this args).Within R) :
    CallsWithin (fun _ => True) R invoke callback where
  lasts _ _ _ _ := trivial
  calls r hr this args w _ := ⟨trivial, h r hr this args w⟩

/-- What keeps a relation between calls keeps the condition as well. -/
theorem within_of_adds (h : CallsWithin I R invoke callback) {x : Run α}
    (hadds : x.Within World.Adds) (hx : x.Within R) : x.Within (World.Under I R) :=
  fun w hw => ⟨h.lasts _ _ (hadds w) hw, hx w⟩

/-- A call of the callback, if what is held and in the ledger does not matter to the relation. -/
theorem within_call [IsPreorder World R] (h : CallsWithin I R invoke callback)
    (hrest : ∀ w ledger held, R w { w with ledger := ledger, held := held })
    (this : Script.Value) (args : List Script.Value) :
    (Run.call invoke callback this args).Within (World.Under I R) :=
  Run.within_call (fun w ledger held hw =>
    ⟨h.lasts _ _ (w.adds_rest ledger held) hw, hrest w ledger held⟩)
    fun r hr => h.calls r hr this args

/-- A callable of a script is called as long as it is there. -/
theorem of_perform {eng : Engine} {n : Nat} {r : Ref .function} {c : Callable}
    (h : ∀ this args, (eng.perform (eng.invoke n) n c this args).Within
      (World.Under (·.functions.get? r = some c) R)) :
    CallsWithin (·.functions.get? r = some c) R (eng.invoke (n + 1)) (.function r) where
  lasts _ _ hadds := hadds.functions r c
  calls r' hr' this args w hw := by
    cases hr'
    have hinvoke : eng.invoke (n + 1) r this args w =
        eng.perform (eng.invoke n) n c this args w := by
      unfold Engine.invoke
      rw [Run.get_bind, hw]
    rw [hinvoke]
    exact h this args w hw

end CallsWithin

end Membrane
