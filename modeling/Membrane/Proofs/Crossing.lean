import Membrane.Proofs.Quiet
import Membrane.Proofs.Storage
import Mathlib.Order.Defs.Unbundled

/-!
# Crossing

What carrying a value across does to the world, and what comes back. On the way to the host arrays
are copied into fresh lists, on the way to the script proxies get fresh handlers; whatever was there
before stays as it was. So a script value that was made for a host value stands for it from then on:
handed back, it is that value again, except that the kinds of numbers and text that scripts do not
tell apart have become one.

## Main definitions

* `World.AddsObjects`, `World.AddsHandlers`: what crossing may do to a world.
* `Run.Within`, `Run.FailsWithin`: that a relation holds of the world reached.
* `World.KeepsTargets`: what a later world has in common with an earlier one.
* `Script.Value.StandsFor`: that a script value comes back as a host value.
* `Host.Value.widened`: the value that comes back.

## Main results

* `Engine.within_toHost`, `Engine.within_toScript`.
* `Engine.standsFor_toScript`: what a value carried to the script comes back as.
-/

namespace Membrane

open Host (Value)

/-- Worlds that differ by further host objects only. -/
structure World.AddsObjects (w w' : World) : Prop where
  /-- The host objects there were are as they were. -/
  objects : ∀ r o, w.objects.get? r = some o → w'.objects.get? r = some o
  /-- Nothing else differs. -/
  rest : w' = { w with objects := w'.objects }

/-- Worlds that differ by further handlers and by descriptors only. -/
structure World.AddsHandlers (w w' : World) : Prop where
  /-- The handlers there were are as they were. -/
  handlers : ∀ r h, w.handlers.get? r = some h → w'.handlers.get? r = some h
  /-- Nothing else differs. -/
  rest : w' = { w with handlers := w'.handlers, descriptors := w'.descriptors }

/-- The handlers there were still answer for the same values. -/
def World.KeepsTargets (w w' : World) : Prop :=
  ∀ r h, w.handlers.get? r = some h → ∃ h', w'.handlers.get? r = some h' ∧ h'.target = h.target

/-- The object a value refers to is there. -/
def World.Knows (w : World) (v : Value) : Prop :=
  ∀ r, v = .object r → ∃ o, w.objects.get? r = some o

/-- The objects there were still are there. -/
def World.KeepsObjects (w w' : World) : Prop := ∀ v, w.Knows v → w'.Knows v

instance : IsPreorder World World.AddsObjects where
  refl _ := ⟨fun _ _ h => h, rfl⟩
  trans _ _ _ h h' := ⟨fun r o hr => h'.objects r o (h.objects r o hr), by rw [h'.rest, h.rest]⟩

instance : IsPreorder World World.AddsHandlers where
  refl _ := ⟨fun _ _ h => h, rfl⟩
  trans _ _ _ h h' := ⟨fun r o hr => h'.handlers r o (h.handlers r o hr), by rw [h'.rest, h.rest]⟩

instance : IsPreorder World World.KeepsTargets where
  refl _ := fun _ h hr => ⟨h, hr, rfl⟩
  trans _ _ _ h h' := fun r _ hr => by
    obtain ⟨h₁, hr₁, htarget⟩ := h r _ hr
    obtain ⟨h₂, hr₂, htarget'⟩ := h' r h₁ hr₁
    exact ⟨h₂, hr₂, htarget'.trans htarget⟩

namespace World

variable {w w' : World} {v : Value}

/-- The storage there was is as it was. -/
theorem AddsObjects.data? {data : Host.Data} (h : w.AddsObjects w') (hv : w.data? v = some data) :
    w'.data? v = some data := by
  obtain ⟨r, o, rfl, ho, rfl⟩ := exists_object_of_data? hv
  simp [World.data?, World.object?, Value.object?, h.objects r o ho]

theorem AddsObjects.list? {items : Array Value} (h : w.AddsObjects w')
    (hv : w.list? v = some items) : w'.list? v = some items :=
  list?_eq_some_iff.2 (h.data? (list?_eq_some_iff.1 hv))

theorem AddsObjects.set? {members : List Value} (h : w.AddsObjects w')
    (hv : w.set? v = some members) : w'.set? v = some members :=
  set?_eq_some_iff.2 (h.data? (set?_eq_some_iff.1 hv))

theorem AddsObjects.map? {entries : Dictionary Value Value} (h : w.AddsObjects w')
    (hv : w.map? v = some entries) : w'.map? v = some entries :=
  map?_eq_some_iff.2 (h.data? (map?_eq_some_iff.1 hv))

theorem AddsObjects.handlers_eq (h : w.AddsObjects w') : w'.handlers = w.handlers := by rw [h.rest]

theorem AddsHandlers.iterators_eq (h : w.AddsHandlers w') : w'.iterators = w.iterators := by
  rw [h.rest]

/-- Handlers that are the same answer for the same values. -/
theorem KeepsTargets.of_handlers_eq (h : w'.handlers = w.handlers) : w.KeepsTargets w' := by
  intro r h₁ hr
  rw [h]
  exact ⟨h₁, hr, rfl⟩

/-- Host objects are not touched. -/
theorem AddsHandlers.alike (h : w.AddsHandlers w') : w.Alike w' := by
  rw [h.rest]
  exact ⟨rfl, rfl, rfl⟩

theorem Alike.list? (h : w.Alike w') (v : Value) : w'.list? v = w.list? v := list?_congr h.objects

theorem AddsHandlers.keepsTargets (h : w.AddsHandlers w') : w.KeepsTargets w' :=
  fun r h₁ hr => ⟨h₁, h.handlers r h₁ hr, rfl⟩

theorem Knows.congr (h : w'.objects = w.objects) (hv : w.Knows v) : w'.Knows v := by
  intro r hr
  rw [h]
  exact hv r hr

end World

/-! ### Relations kept by computations -/

namespace Run

variable {α β : Type} {R : World → World → Prop}

/-- The world a computation reaches is related to the one it starts from. -/
def Within (R : World → World → Prop) (x : Run α) : Prop := ∀ w, R w (Outcome.world (x w))

/-- The world a computation reaches when it fails is related to the one it starts from. -/
def FailsWithin (R : World → World → Prop) (x : Run α) : Prop :=
  ∀ w e w', x w = .error e w' → R w w'

namespace Within

section Refl

variable [Std.Refl R]

theorem pure (a : α) : (Pure.pure a : Run α).Within R := fun w => Std.Refl.refl w

theorem raise (f : Fault) : (Run.raise f : Run α).Within R := fun w => Std.Refl.refl w

theorem throw (e : Halt) : (MonadExcept.throw e : Run α).Within R := fun w => Std.Refl.refl w

theorem get : (MonadState.get : Run World).Within R := fun w => Std.Refl.refl w

theorem of_looks {x : Run α} (hx : x.Looks) : x.Within R := fun w => by
  rw [hx w]
  exact Std.Refl.refl w

end Refl

variable [IsPreorder World R]

theorem bind {x : Run α} {f : α → Run β} (hx : x.Within R) (hf : ∀ a, (f a).Within R) :
    (x >>= f).Within R := by
  intro w
  have h := hx w
  cases hw : x w with
  | ok a w₁ =>
    rw [hw] at h
    rw [bind_of_ok hw]
    exact IsTrans.trans w w₁ _ h (hf a w₁)
  | error e w₁ =>
    rw [hw] at h
    rw [bind_of_error hw]
    exact h

theorem holdsOfParts : HoldsOfParts fun _ x => x.Within R where
  pure := .pure
  bind := .bind
  look hf _ := .bind .get hf

omit [IsPreorder World R] in
theorem rel_of_ok {x : Run α} {a : α} {w w' : World} (hx : x.Within R) (h : x w = .ok a w') :
    R w w' := by
  have hw := hx w
  rwa [h] at hw

omit [IsPreorder World R] in
/-- What keeps a relation keeps a weaker one. -/
theorem mono {R' : World → World → Prop} {x : Run α} (hx : x.Within R)
    (hR : ∀ w w', R w w' → R' w w') : x.Within R' :=
  fun w => hR w _ (hx w)

end Within

namespace FailsWithin

theorem of_within {x : Run α} (hx : x.Within R) : x.FailsWithin R := by
  intro w e w' h
  have hw := hx w
  rwa [h] at hw

/-- A computation that does not fail. -/
theorem of_ok {x : Run α} (hx : ∀ w, ∃ a w', x w = .ok a w') : x.FailsWithin R := by
  intro w e w' h
  obtain ⟨a, w₁, hok⟩ := hx w
  rw [hok] at h
  cases h

/-- A computation whose first part keeps the relation in any case. -/
theorem bind [IsPreorder World R] {x : Run α} {f : α → Run β} (hx : x.Within R)
    (hf : ∀ a, (f a).FailsWithin R) : (x >>= f).FailsWithin R := by
  intro w e w' h
  obtain hw | ⟨a, w₁, hw, h⟩ := bind_eq_error h
  · exact of_within hx w e w' hw
  · have hfirst := hx w
    rw [hw] at hfirst
    exact IsTrans.trans w w₁ w' hfirst (hf a w₁ e w' h)

end FailsWithin

theorem within_newObject (o : Host.Object) : (Run.newObject o).Within World.AddsObjects :=
  fun _ => ⟨fun _ _ h => Store.get?_alloc_of_some o h, rfl⟩

end Run

/-! ### Reading changes nothing -/

section Reading

variable {R : World → World → Prop} [IsPreorder World R]

theorem within_listItems (target : Value) : (listItems target).Within R :=
  .of_looks (looks_listItems target)

theorem within_setMembers (target : Value) : (setMembers target).Within R :=
  .of_looks (looks_setMembers target)

end Reading

/-! ### To the host -/

/-- A proxy is carried to the host as the value its handler answers for. -/
theorem carryToHost_proxy (n : Nat) (r : Ref .handler) (w : World) :
    (Script.Value.proxy r).carryToHost n w =
      .ok ((w.handlers.get? r).elim .null Handler.target) w := by
  cases n <;> rfl

/-- An array is carried to the host as a list of what its items are carried as. -/
theorem carryToHost_array (n : Nat) (r : Ref .array) (w : World) :
    (Script.Value.array r).carryToHost (n + 1) w =
      (((w.arrays.get? r).getD []).mapM (Script.Value.carryToHost n) >>= Run.newList) w :=
  rfl

theorem within_carryToHost (n : Nat) (v : Script.Value) :
    (v.carryToHost n).Within World.AddsObjects :=
  Run.Within.holdsOfParts.carryToHost (.throw _) (fun _ => Run.within_newObject _) n v

namespace Engine

variable (eng : Engine)

/-- To carry a value to the host does nothing to a world but add host objects. -/
theorem within_toHost (v : Script.Value) : (eng.toHost v).Within World.AddsObjects := by
  refine .bind .get fun w => ?_
  split
  · exact .raise _
  · exact within_carryToHost _ v

theorem within_toHostAll (vs : List Script.Value) : (eng.toHostAll vs).Within World.AddsObjects :=
  Run.Within.holdsOfParts.mapM eng.within_toHost vs

/-! ### To the script -/

/-- A relation is kept by making a handler if it allows further descriptors and one more handler
that has captured nothing. -/
theorem within_newHandler_of {R : World → World → Prop} [IsPreorder World R] {target : Value}
    (hdescribed : ∀ w ds, R w { w with descriptors := ds })
    (hmade : ∀ w d, R w { w with handlers := w.handlers.alloc ⟨target, d, none, none⟩ }) :
    (eng.newHandler target).Within R := by
  have hdescribe (c : Host.Class) (isStatic : Bool) : (eng.describe c isStatic).Within R := by
    intro w
    obtain ⟨d, ds, h⟩ := eng.describe_eq_ok c isStatic w
    rw [h]
    exact hdescribed w ds
  exact Run.Within.holdsOfParts.newHandler (.raise _)
    (.of_looks (.raiseAbout target .indescribable [])) hdescribe fun d w => hmade w d

/-- To carry a value to the script is to make a handler for it at most. -/
theorem within_toScript_of {R : World → World → Prop} [IsPreorder World R]
    (hnew : ∀ target, (eng.newHandler target).Within R) (v : Value) :
    (eng.toScript v).Within R := by
  refine .bind .get fun w => ?_
  split
  · exact .raise _
  · exact Run.Within.holdsOfParts.carryToScript (fun r => hnew (.object r)) v

theorem within_newHandler (target : Value) : (eng.newHandler target).Within World.AddsHandlers :=
  eng.within_newHandler_of (fun _ _ => ⟨fun _ _ h => h, rfl⟩)
    fun _ _ => ⟨fun _ _ h => Store.get?_alloc_of_some _ h, rfl⟩

/-- To carry a value to the script does nothing to a world but add handlers and descriptors. -/
theorem within_toScript (v : Value) : (eng.toScript v).Within World.AddsHandlers :=
  eng.within_toScript_of eng.within_newHandler v

/-- A handler is made for every value but null that has a class. -/
theorem newHandler_eq_ok {target : Value} {c : Host.Class} {w : World}
    (hnull : target.isNull = false) (hclass : w.class? target = some c) :
    ∃ r w', eng.newHandler target w = .ok r w' ∧
      ∃ h, w'.handlers.get? r = some h ∧ h.target = target := by
  have hdescriptor : ∃ d ds, eng.descriptorOf target w = .ok d { w with descriptors := ds } := by
    unfold descriptorOf
    rw [Run.get_bind]
    cases w.classRef? target with
    | some c' => exact eng.describe_eq_ok c' true w
    | none =>
      simp only [hclass]
      exact eng.describe_eq_ok c false w
  obtain ⟨d, ds, hd⟩ := hdescriptor
  have hrun : eng.newHandler target w = .ok w.handlers.next
      { w with descriptors := ds, handlers := w.handlers.alloc ⟨target, d, none, none⟩ } := by
    unfold newHandler
    simp only [hnull, Bool.false_eq_true, if_false]
    exact Run.bind_of_ok hd
  exact ⟨_, _, hrun, _, Store.get?_alloc_next _ _, rfl⟩

/-- A handler answers for the value it was made for. -/
theorem newHandler_target {target : Value} {r : Ref .handler} {w w' : World}
    (h : eng.newHandler target w = .ok r w') :
    ∃ h, w'.handlers.get? r = some h ∧ h.target = target := by
  unfold newHandler at h
  split at h
  · cases h
  · obtain ⟨d, w₁, -, h⟩ := Run.bind_eq_ok h
    cases h
    exact ⟨_, Store.get?_alloc_next _ _, rfl⟩

end Engine

/-! ### There and back -/

/-- From a world on, a script value is carried to the host as a given value. -/
def Script.Value.StandsFor (s : Script.Value) (w : World) (v : Host.Value) : Prop :=
  ∀ w', w.KeepsTargets w' → ∀ n, s.carryToHost n w' = .ok v w'

/-- What a host value has become when it has crossed to the script and back: the kinds of numbers
and text that scripts do not tell apart have become one, and so have script primitives that the host
held and its own. -/
def Host.Value.widened : Value → Value
  | .byte n => .integer (Int32.ofInt n.toInt)
  | .short n => .integer (Int32.ofInt n.toInt)
  | .float x => .double (x.convert _)
  | .character c => .string (String.ofList [c])
  | .script .undefined | .script .null => .null
  | .script (.boolean b) => .boolean b
  | .script (.integer n) => .integer n
  | .script (.long n) => .long n
  | .script (.double x) => .double x
  | .script (.bigInt n) => .bigInteger n
  | .script (.string s) => .string s
  | v => v

/-- No script array and no proxy is held: the one would be copied when it crosses, and the other
would give way to its target. -/
def Host.Value.isWellHeld : Value → Bool
  | .script (.array _) | .script (.proxy _) => false
  | _ => true

/-- The engine lets every value cross. -/
structure Engine.Open (eng : Engine) : Prop where
  /-- No host value is refused. -/
  toScript : ∀ w v, eng.refusesHost w v = none
  /-- No script value is refused. -/
  toHost : ∀ w v, eng.refusesScript w v = none

theorem Engine.open_direct (config : Config) : (Engine.direct config).Open :=
  ⟨fun _ _ => rfl, fun _ _ => rfl⟩

/-- A primitive is carried back as the one it has become. -/
theorem standsFor_scriptPrimitive {v : Value} {s : Script.Value} (h : v.scriptPrimitive? = some s)
    (w : World) : s.StandsFor w v.widened := by
  intro w' _ n
  cases v <;> cases h <;> cases n <;> rfl

namespace Engine

variable {eng : Engine} {v : Value} {s : Script.Value} {w w' : World}

/-- A value crosses as a primitive, as the script value it holds, or as a proxy of an object. -/
theorem crossing_cases (v : Value) :
    (∃ s, v.scriptPrimitive? = some s) ∨ (∃ s, v = .script s) ∨ ∃ r, v = .object r := by
  cases v with
  | object r => exact .inr (.inr ⟨r, rfl⟩)
  | script s => exact .inr (.inl ⟨s, rfl⟩)
  | _ => exact .inl ⟨_, rfl⟩

theorem carryToScript_of_primitive (h : v.scriptPrimitive? = some s) :
    eng.carryToScript v = pure s := by
  simp only [carryToScript, h]

theorem toScript_eq_carryToScript (h : eng.refusesHost w v = none) :
    eng.toScript v w = eng.carryToScript v w := by
  unfold toScript
  rw [Run.get_bind, h]

/-- A value that was carried to the script was not refused. -/
theorem carryToScript_of_toScript (h : eng.toScript v w = .ok s w') :
    eng.carryToScript v w = .ok s w' := by
  cases hrefuses : eng.refusesHost w v with
  | none => rwa [toScript_eq_carryToScript hrefuses] at h
  | some f =>
    unfold toScript at h
    rw [Run.get_bind, hrefuses] at h
    cases h

/-- A proxy stands for the value its handler answers for. -/
theorem standsFor_proxy {r : Ref .handler} (h : ∃ h, w.handlers.get? r = some h ∧ h.target = v) :
    (Script.Value.proxy r).StandsFor w v := by
  obtain ⟨h₁, hr, rfl⟩ := h
  intro w' hw n
  obtain ⟨h₂, hr₂, htarget⟩ := hw r h₁ hr
  rw [carryToHost_proxy, hr₂, Option.elim_some, htarget]

/-- What a value is carried to the script as is carried back as the value it has become. -/
theorem standsFor_toScript (hheld : v.isWellHeld = true) (h : eng.toScript v w = .ok s w') :
    s.StandsFor w' v.widened := by
  replace h := carryToScript_of_toScript h
  obtain ⟨s', hs'⟩ | ⟨s', rfl⟩ | ⟨r, rfl⟩ := crossing_cases v
  · rw [carryToScript_of_primitive hs'] at h
    cases h
    exact standsFor_scriptPrimitive hs' w
  · cases h
    intro w₁ _ n
    cases s <;> cases hheld <;> cases n <;> rfl
  · obtain ⟨r', w₁, hnew, hr'⟩ := Run.bind_eq_ok h
    cases hr'
    exact standsFor_proxy (eng.newHandler_target hnew)

/-- A value that is not refused and whose object is there is carried to the script. -/
theorem toScript_eq_ok_of_crosses (hcross : eng.refusesHost w v = none) (hknown : w.Knows v) :
    ∃ s w', eng.toScript v w = .ok s w' := by
  rw [toScript_eq_carryToScript hcross]
  obtain ⟨s, hs⟩ | ⟨s, rfl⟩ | ⟨r, rfl⟩ := crossing_cases v
  · rw [carryToScript_of_primitive hs]
    exact ⟨s, w, rfl⟩
  · exact ⟨s, w, rfl⟩
  · obtain ⟨o, ho⟩ := hknown r rfl
    have hclass : w.class? (.object r) = some o.cls := by simp [World.class?, ho]
    obtain ⟨r', w', hnew, -⟩ := eng.newHandler_eq_ok rfl hclass
    exact ⟨.proxy r', w', Run.bind_of_ok hnew⟩

/-- An open engine carries every value to the script whose object is there. -/
theorem toScript_eq_ok (hopen : eng.Open) (hknown : w.Knows v) :
    ∃ s w', eng.toScript v w = .ok s w' :=
  toScript_eq_ok_of_crosses (hopen.toScript w v) hknown

/-- An open engine carries a value back that stands for another. -/
theorem toHost_of_standsFor (hopen : eng.Open) (hs : s.StandsFor w v) (hw : w.KeepsTargets w') :
    eng.toHost s w' = .ok v w' := by
  unfold toHost
  rw [Run.get_bind, hopen.toHost]
  exact hs w' hw _

end Engine

end Membrane
