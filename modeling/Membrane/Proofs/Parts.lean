import Membrane.Engine
import Mathlib.Tactic.Common

/-!
# The parts of computations

Most computations are composed of a few parts: they give values, look at the world and do one thing
after the other. So whatever holds of these parts, and of computations composed of computations of
which it holds, holds of all that is composed of them. No composed computation looks at the fields
of an object, except where it is a field that is asked for.

Carrying a value across is composed of such parts and little else. Towards the host that is making a
list, and giving up at a depth; towards the script it is making a handler.

## Main definitions

* `World.SameButFields`: worlds that differ in fields at most, as far as computations look at them.
* `Run.HoldsOfParts`: a property of computations that holds of parts.

## Main results

* `Run.HoldsOfParts.mapM`: computations for the elements of a list.
* `Run.HoldsOfParts.carryToHost`, `Run.HoldsOfParts.carryToScript`: carrying a value across.
* `Run.HoldsOfParts.newHandler`: making a handler.
-/

namespace Membrane

open Host (Value)

/-- Worlds that differ in the fields of objects at most, as far as computations look at them. -/
structure World.SameButFields (w w' : World) : Prop where
  /-- All storage is the same. -/
  data (v : Value) : w'.data? v = w.data? v
  /-- All classes are the same. -/
  cls (v : Value) : w'.class? v = w.class? v
  /-- All string forms are the same. -/
  text (v : Value) (locked : List (Ref .object)) : w'.hostText? v locked = w.hostText? v locked
  /-- The script arrays are the same. -/
  arrays : w'.arrays = w.arrays
  /-- The handlers are the same. -/
  handlers : w'.handlers = w.handlers

namespace Run

/-- A property of computations that holds of parts and of what is composed of parts. -/
structure HoldsOfParts (P : ∀ α : Type, Run α → Prop) : Prop where
  /-- Giving a value. -/
  pure {α : Type} (a : α) : P α (Pure.pure a)
  /-- One computation after the other. -/
  bind {α β : Type} {x : Run α} {f : α → Run β} (hx : P α x) (hf : ∀ a, P β (f a)) : P β (x >>= f)
  /-- Looking at the world, fields aside. -/
  look {α : Type} {f : World → Run α} (hf : ∀ w, P α (f w))
    (hsame : ∀ w w', w.SameButFields w' → f w' = f w) : P α (MonadState.get >>= f)

namespace HoldsOfParts

variable {P : ∀ α : Type, Run α → Prop} (hP : HoldsOfParts P)
include hP

/-- Computations for the elements of a list, one after the other. -/
theorem mapM {α β : Type} {f : α → Run β} (hf : ∀ a, P β (f a)) : (l : List α) → P _ (l.mapM f)
  | [] => by
    rw [List.mapM_nil]
    exact hP.pure _
  | a :: l => by
    rw [List.mapM_cons]
    exact hP.bind (hf a) fun b => hP.bind (mapM hf l) fun bs => hP.pure _

/-- Writing a value as text. -/
theorem hostText (hexhausted : P String (throw .exhausted)) (v : Value)
    (locked : List (Ref .object)) : P _ (Run.hostText v locked) := by
  refine hP.look (fun w => ?_) fun w w' h => by rw [h.text]
  cases w.hostText? v locked with
  | none => exact hexhausted
  | some s => exact hP.pure s

/-- Raising a fault that quotes a value. -/
theorem raiseAbout {α : Type} (hexhausted : P α (throw .exhausted)) {fault : String → Fault}
    (hraise : ∀ s, P α (Run.raise (fault s))) (v : Value) (locked : List (Ref .object)) :
    P α (Run.raiseAbout v fault locked) := by
  refine hP.look (fun w => ?_) fun w w' h => by rw [World.haltAbout, World.haltAbout, h.text]
  unfold World.haltAbout
  cases w.hostText? v locked with
  | none => exact hexhausted
  | some s => exact hraise s

/-- Carrying a value to the host. -/
theorem carryToHost (hexhausted : P Value (throw .exhausted))
    (hlist : ∀ items, P _ (Run.newList items)) (n : Nat) (v : Script.Value) :
    P _ (v.carryToHost n) := by
  have hproxy (r : Ref .handler) :
      P _ (do return ((← get).handlers.get? r).elim .null Handler.target) :=
    hP.look (fun _ => hP.pure _) fun w w' h => by rw [h.handlers]
  induction n generalizing v with
  | zero =>
    cases v with
    | proxy r => exact hproxy r
    | array r => exact hexhausted
    | _ => exact hP.pure _
  | succ n ih =>
    cases v with
    | proxy r => exact hproxy r
    | array r =>
      exact hP.look (fun w => hP.bind (hP.mapM ih _) hlist) fun w w' h => by rw [h.arrays]
    | _ => exact hP.pure _

variable {eng : Engine}

/-- Making a handler for a value. -/
theorem newHandler {target : Value} (hnull : P Unit (Run.raise .nullTarget))
    (hindescribable : P Descriptor (Run.raiseAbout target .indescribable))
    (hdescribe : ∀ c isStatic, P _ (eng.describe c isStatic))
    (hmake : ∀ d, P _ (modifyGet fun w => (w.handlers.next,
      { w with handlers := w.handlers.alloc ⟨target, d, none, none⟩ }))) :
    P _ (eng.newHandler target) := by
  have hdescriptorOf : P _ (eng.descriptorOf target) := by
    refine hP.look (fun w => ?_) fun w w' h => by
      simp only [World.classRef?, h.data, h.cls]
    split
    · exact hdescribe _ _
    · split
      · exact hdescribe _ _
      · exact hindescribable
  unfold Engine.newHandler
  split
  · exact hP.bind hnull fun _ => hP.bind hdescriptorOf hmake
  · exact hP.bind hdescriptorOf hmake

/-- Carrying a value to the script, refusals aside. Handlers are made for objects only. -/
theorem carryToScript (hnew : ∀ r, P _ (eng.newHandler (.object r))) (v : Value) :
    P _ (eng.carryToScript v) := by
  cases v with
  | object r => exact hP.bind (hnew r) fun _ => hP.pure _
  | _ => exact hP.pure _

end HoldsOfParts

end Run

end Membrane
