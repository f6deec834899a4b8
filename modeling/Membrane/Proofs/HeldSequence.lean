import Membrane.Proofs.Accessors
import Membrane.Proofs.Items
import Membrane.Proofs.Iterators
import Membrane.Proofs.Resolution
import Membrane.Proofs.SequenceModel

/-!
# A list and the values that cross

A list holds a sequence of values whose objects exist, in a world whose handlers answer for what
exists. This stays so when values cross in either direction and when other items are put in, and as
long as it is so every item can be carried to the script. What the list shows of its length, in
whichever way it is asked for, is the length of the sequence.

## Main definitions

* `World.HoldsSequence`: the items of a list.
* `Engine.give`, `World.Returns`: how the reply of a step reaches the script, and as what.
* `World.ShowsLength`: the ways to ask for the length.

## Main results

* `World.HoldsSequence.step`, `World.HoldsSequence.addsObjects`, `World.HoldsSequence.give`: what
  the list holds after a step, and after a crossing in either direction.
* `Handler.ServesList.showsLength`: the length.
-/

namespace Membrane

open Host (Value)
open Sequence (Edit Reply)

/-! ### The items of a list -/

/-- Every handler answers for a value whose object is there. -/
def World.KnowsTargets (w : World) : Prop :=
  ∀ r h, w.handlers.get? r = some h → w.Knows h.target

/-- A list holds some items, and no reference to a missing object can get into it. -/
structure World.HoldsSequence (w : World) (target : Value) (xs : List Value) : Prop where
  /-- The items. -/
  list : w.list? target = some xs.toArray
  /-- The objects of the items are there. -/
  items : ∀ v ∈ xs, w.Knows v
  /-- So are the objects for which there are handlers. -/
  targets : w.KnowsTargets

/-- What a caller gets: a host value if the host is the caller, and a script value if a script
is. -/
inductive Returned where
  /-- To the host. -/
  | host (v : Value)
  /-- To a script. -/
  | script (s : Script.Value)
  deriving DecidableEq

/-- What a caller gets is the reply of a plain sequence. The host gets values as they are and a
script what they are carried as; that a step is done is told by null, or by the receiver. -/
inductive World.Returns (w : World) : Reply → Returned → Prop
  /-- The host is told that it is done. -/
  | hostDone : w.Returns .done (.host .null)
  /-- The host gets an item. -/
  | hostItem (v : Value) : w.Returns (.item v) (.host v)
  /-- The host is told whether it was done. -/
  | hostTruth (b : Bool) : w.Returns (.truth b) (.host (.boolean b))
  /-- A script is told that it is done. -/
  | done (s : Script.Value) : w.Returns .done (.script s)
  /-- A script gets an item. -/
  | item {v : Value} {s : Script.Value} (h : w.Shows v s) : w.Returns (.item v) (.script s)
  /-- A script is told that there is no item. -/
  | missing : w.Returns .missing (.script .undefined)
  /-- A script gets items. -/
  | items {vs : List Value} {r : Ref .array} {ss : List Script.Value}
      (hr : w.arrays.get? r = some ss) (h : List.Forall₂ w.Shows vs ss) :
    w.Returns (.items vs) (.script (.array r))
  /-- A script gets a length. -/
  | length {n : Nat} {k : Int32} (h : n ≤ 2147483647 → k.toInt = n) :
    w.Returns (.length n) (.script (.integer k))
  /-- A script is told whether it was done. -/
  | truth (b : Bool) : w.Returns (.truth b) (.script (.boolean b))

section Changes

variable {w w' : World} {target : Value} {xs ys : List Value}

/-- Objects are there whatever is put into a list. -/
theorem World.Knows.putData {v : Value} (hv : w.Knows v) (target : Value) (data : Host.Data) :
    (w.putData target data).Knows v :=
  (w.proceeds_changeData target _).objects v hv

theorem World.KnowsTargets.putData (h : w.KnowsTargets) (target : Value) (data : Host.Data) :
    (w.putData target data).KnowsTargets := by
  have hhandlers : (w.putData target data).handlers = w.handlers := by
    rw [World.putData, World.rest_changeData]
  intro r h' hr
  rw [hhandlers] at hr
  exact (h r h' hr).putData target data

theorem World.AddsObjects.knowsTargets (hadds : w.AddsObjects w') (h : w.KnowsTargets) :
    w'.KnowsTargets := by
  intro r h' hr
  rw [hadds.handlers_eq] at hr
  exact hadds.knows (h r h' hr)

namespace World.HoldsSequence

/-- Other items are put in. -/
theorem put (h : w.HoldsSequence target xs) (hys : ∀ v ∈ ys, w.Knows v) :
    (w.putData target (.list ys.toArray)).HoldsSequence target ys :=
  ⟨list?_putData h.list _, fun v hv => (hys v hv).putData target _, h.targets.putData target _⟩

/-- To put in the items there are changes nothing. -/
theorem putData_self (h : w.HoldsSequence target xs) :
    w.putData target (.list xs.toArray) = w :=
  changeData_eq_self (list?_eq_some_iff.1 h.list) rfl

/-- A step leaves only values whose objects are there. -/
theorem step {edit : Edit} {reply : Reply} (h : w.HoldsSequence target xs)
    (happly : edit.apply xs = some (reply, ys)) (hedit : ∀ v ∈ edit.values, w.Knows v) :
    (w.putData target (.list ys.toArray)).HoldsSequence target ys ∧
      ∀ v ∈ reply.values, (w.putData target (.list ys.toArray)).Knows v := by
  obtain ⟨hys, hreply⟩ := Edit.mem_of_apply happly
  exact ⟨h.put fun v hv => (hys v hv).elim (h.items v) (hedit v),
    fun v hv => (h.items v (hreply v hv)).putData target _⟩

theorem addsObjects (h : w.HoldsSequence target xs) (hadds : w.AddsObjects w') :
    w'.HoldsSequence target xs :=
  ⟨hadds.list? h.list, fun v hv => hadds.knows (h.items v hv), hadds.knowsTargets h.targets⟩

end World.HoldsSequence

end Changes

/-! ### To the host -/

section ToHost

variable {eng : Engine} {w w' : World} {target : Value} {xs : List Value}

/-- A value comes from a script as a value whose object is there. -/
theorem knows_of_carryToHost {s : Script.Value} {v : Value} {n : Nat}
    (hw : w.KnowsTargets) (h : s.carryToHost n w = .ok v w') : w'.Knows v := by
  cases s with
  | proxy r =>
    rw [carryToHost_proxy] at h
    cases h
    cases hr : w.handlers.get? r with
    | none => exact nofun
    | some h' => exact hw r h' hr
  | array r =>
    cases n with
    | zero => cases h
    | succ n =>
      obtain ⟨_, _, -, hcopy⟩ := Run.bind_eq_ok h
      obtain ⟨items, w₁, -, hnew⟩ := Run.bind_eq_ok hcopy
      cases hnew
      intro r' hr'
      cases hr'
      exact ⟨_, Store.get?_alloc_next _ _⟩
  | _ =>
    cases n <;>
    · cases h
      exact nofun

theorem Engine.knows_of_toHost {s : Script.Value} {v : Value} (hw : w.KnowsTargets)
    (h : eng.toHost s w = .ok v w') : w'.Knows v := by
  unfold toHost at h
  cases hrefuses : eng.refusesScript w s with
  | some f =>
    rw [Run.get_bind, hrefuses] at h
    cases h
  | none =>
    rw [Run.get_bind, hrefuses] at h
    exact knows_of_carryToHost hw h

theorem Engine.knows_of_toHostAll {ss : List Script.Value} {vs : List Value}
    (hw : w.KnowsTargets) (h : eng.toHostAll ss w = .ok vs w') : ∀ v ∈ vs, w'.Knows v := by
  induction ss generalizing w vs with
  | nil =>
    cases h
    exact nofun
  | cons s ss ih =>
    rw [toHostAll, List.mapM_cons] at h
    obtain ⟨v, w₁, hv, h⟩ := Run.bind_eq_ok h
    obtain ⟨vs', w₂, hvs, h⟩ := Run.bind_eq_ok h
    cases h
    have hadds : w.AddsObjects w₁ := (eng.within_toHost s).rel_of_ok hv
    have hadds' : w₁.AddsObjects w' := (eng.within_toHostAll ss).rel_of_ok hvs
    exact List.forall_mem_cons.2
      ⟨hadds'.knows (knows_of_toHost hw hv), ih (hadds.knowsTargets hw) hvs⟩

end ToHost

/-! ### To the script -/

/-- Worlds that differ by handlers for one value, and by what is kept of classes. -/
structure World.AddsHandlersOf (v : Value) (w w' : World) : Prop where
  /-- The host objects are the same. -/
  objects : w'.objects = w.objects
  /-- A handler was there or answers for the value. -/
  handlers : ∀ r h, w'.handlers.get? r = some h → w.handlers.get? r = some h ∨ h.target = v

instance (v : Value) : IsPreorder World (World.AddsHandlersOf v) where
  refl _ := ⟨rfl, fun _ _ h => .inl h⟩
  trans _ _ _ h h' := ⟨h'.objects.trans h.objects, fun r k hr =>
    (h'.handlers r k hr).elim (h.handlers r k) .inr⟩

section ToScript

variable {eng : Engine} {w w' : World} {target v : Value} {xs : List Value}

theorem Engine.within_newHandler_addsHandlersOf (eng : Engine) (v : Value) :
    (eng.newHandler v).Within (World.AddsHandlersOf v) := by
  refine eng.within_newHandler_of (fun _ _ => ⟨rfl, fun _ _ h => .inl h⟩) fun _ _ => ⟨rfl, ?_⟩
  intro r h hr
  refine (Store.get?_or_eq_of_alloc hr).imp_right fun heq => ?_
  rw [heq]

/-- To carry a value to the script makes handlers for that value only. -/
theorem Engine.within_toScript_addsHandlersOf (eng : Engine) (v : Value) :
    (eng.toScript v).Within (World.AddsHandlersOf v) := by
  refine .bind .get fun w => ?_
  split
  · exact .raise _
  · obtain ⟨s, hs⟩ | ⟨s, rfl⟩ | ⟨r, rfl⟩ := crossing_cases v
    · rw [carryToScript_of_primitive hs]
      exact .pure s
    · exact .pure s
    · exact .bind (eng.within_newHandler_addsHandlersOf (.object r)) fun _ => .pure _

namespace World.HoldsSequence

theorem addsHandlersOf (h : w.HoldsSequence target xs) (hv : w.Knows v)
    (hadds : w.AddsHandlersOf v w') : w'.HoldsSequence target xs := by
  refine ⟨(list?_congr hadds.objects).trans h.list,
    fun u hu => (h.items u hu).congr hadds.objects, fun r k hr => ?_⟩
  obtain hold | rfl := hadds.handlers r k hr
  · exact (h.targets r k hold).congr hadds.objects
  · exact hv.congr hadds.objects

variable (hopen : eng.Open)
include hopen

theorem toScript (h : w.HoldsSequence target xs) (hv : w.Knows v) :
    ∃ s w', eng.toScript v w = .ok s w' ∧ w'.Shows v s ∧ w.AddsHandlers w' ∧
      w'.HoldsSequence target xs := by
  obtain ⟨s, w', hs⟩ := Engine.toScript_eq_ok_of_crosses (hopen.toScript w v) hv
  exact ⟨s, w', hs, Engine.shows_of_toScript hs, (eng.within_toScript v).rel_of_ok hs,
    h.addsHandlersOf hv ((eng.within_toScript_addsHandlersOf v).rel_of_ok hs)⟩

theorem toScriptAll (h : w.HoldsSequence target xs) {vs : List Value}
    (hvs : ∀ v ∈ vs, w.Knows v) :
    ∃ ss w', eng.toScriptAll vs w = .ok ss w' ∧ List.Forall₂ w'.Shows vs ss ∧
      w.AddsHandlers w' ∧ w'.HoldsSequence target xs := by
  induction vs generalizing w with
  | nil => exact ⟨[], w, rfl, .nil, refl w, h⟩
  | cons v vs ih =>
    obtain ⟨hv, hvs⟩ := List.forall_mem_cons.1 hvs
    obtain ⟨s, w₁, hs, hshows, hadds, h₁⟩ := h.toScript hopen hv
    obtain ⟨ss, w₂, hss, hall, hadds', h₂⟩ :=
      ih h₁ fun u hu => (hvs u hu).congr hadds.alike.objects
    refine ⟨s :: ss, w₂, ?_, .cons (hshows.later hadds'.keepsTargets) hall,
      IsTrans.trans w w₁ w₂ hadds hadds', h₂⟩
    rw [Engine.toScriptAll, List.mapM_cons, Run.bind_of_ok hs]
    exact Run.bind_of_ok hss

end World.HoldsSequence

end ToScript

/-! ### Replies -/

theorem clampInt32_ofNat {n : Nat} (hn : n ≤ 2147483647) :
    (Script.Value.clampInt32 n).toInt = n := by
  unfold Script.Value.clampInt32
  rw [if_neg (by omega), if_neg (by omega)]
  exact Int32.toInt_ofInt_of_le (by omega) (by omega)

/-- A reply is given to a script: values as they cross, lengths as numbers. That a step is done is
told by a value of its own. -/
def Engine.give (eng : Engine) (done : Script.Value) : Reply → Run Script.Value
  | .done => return done
  | .item v => eng.toScript v
  | .missing => return .undefined
  | .items vs => eng.toScriptArray vs
  | .length n => return .ofIndex n
  | .truth b => return .boolean b

/-- A reply whose values are there reaches the script, and the list holds what it held. -/
theorem World.HoldsSequence.give {eng : Engine} (hopen : eng.Open) {w : World} {target : Value}
    {xs : List Value} (h : w.HoldsSequence target xs) {reply : Reply}
    (hreply : ∀ v ∈ reply.values, w.Knows v) (done : Script.Value) :
    ∃ s w', eng.give done reply w = .ok s w' ∧ w'.Returns reply (.script s) ∧
      w'.HoldsSequence target xs := by
  cases reply with
  | done => exact ⟨done, w, rfl, .done done, h⟩
  | item v =>
    obtain ⟨s, w', hs, hshows, -, h'⟩ := h.toScript hopen (hreply v List.mem_cons_self)
    exact ⟨s, w', hs, .item hshows, h'⟩
  | missing => exact ⟨_, w, rfl, .missing, h⟩
  | items vs =>
    obtain ⟨ss, w₁, hss, hshows, -, h₁⟩ := h.toScriptAll hopen hreply
    have hlater : ∀ v s, w₁.Shows v s → { w₁ with arrays := w₁.arrays.alloc ss }.Shows v s :=
      fun v s hs => hs.later (.of_handlers_eq rfl)
    exact ⟨_, _, Run.bind_of_ok hss, .items (Store.get?_alloc_next _ _) (hshows.imp hlater),
      h₁.list, h₁.items, h₁.targets⟩
  | length n => exact ⟨_, w, rfl, .length clampInt32_ofNat, h⟩
  | truth b => exact ⟨_, w, rfl, .truth b, h⟩

/-! ### The length -/

theorem Host.listOf_eq_ok {w : World} {target : Value} {xs : List Value}
    (hlist : w.list? target = some xs.toArray) : Host.listOf target w = .ok xs.toArray w := by
  unfold Host.listOf
  rw [Run.get_bind, hlist]
  rfl

/-- A handler answers for a list. -/
structure Handler.ServesList (h : Handler) (target : Value) : Prop where
  /-- Its target is the list. -/
  target : h.target = target
  /-- It shows what lists show. -/
  descriptor : ∃ config, h.descriptor = .build config Host.Library.list false

/-- Whichever way the length of a list is asked for, the answer is a number: the property `length`,
the property `size` where the host method of this name gives way to it, the host method itself and
the number of keys. All but the last are numbers of 32 bits. -/
structure World.ShowsLength (w : World) (eng : Engine) (h : Handler) (n : Nat) : Prop where
  /-- The property `length`. -/
  length : ∃ k, eng.getProperty h (.string "length") w = .ok (.integer k) w ∧
    (n ≤ 2147483647 → k.toInt = n)
  /-- The property `size`. -/
  size : h.descriptor.isOverride "size" = true →
    ∃ k, eng.getProperty h (.string "size") w = .ok (.integer k) w ∧ (n ≤ 2147483647 → k.toInt = n)
  /-- The host method. -/
  hostSize : ∃ k, Host.BuiltIn.listSize.run eng.hasher h.target [] w = .ok (.integer k) w ∧
    (n ≤ 2147483647 → k.toInt = n)
  /-- The keys. -/
  keys : ∀ r h', w.handlers.get? r = some h' → h'.target = h.target →
    ∃ keys, Run.ownKeys r w = .ok keys w ∧ keys.length = n

namespace Handler.ServesList

variable {h : Handler} {target : Value} (hh : h.ServesList target)
include hh

/-- Lists have no fields. -/
theorem field?_eq_none (name : String) : h.descriptor.field? name = none := by
  obtain ⟨config, hd⟩ := hh.descriptor
  rw [hd, Descriptor.field?_build]
  rfl

/-- No method is a getter of the name of a function. -/
theorem getter?_eq_none (f : Prototype.ListFunction) : h.descriptor.getter? f.name = none := by
  obtain ⟨config, hd⟩ := hh.descriptor
  have hnone : Prototype.ListFunction.all.all (fun f =>
      !(Text.capitalize? f.name.toList).any fun suffix =>
        (Descriptor.methodSequence Host.Library.list false).any
          (suffix.isSuffixOf ·.name.toList)) = true := by
    decide +kernel
  have hf : f ∈ Prototype.ListFunction.all := by cases f <;> decide
  rw [hd]
  exact Descriptor.accessor?_eq_none (Bool.not_eq_true' _ ▸ List.all_eq_true.1 hnone f hf)

/-- The one method that a configuration may make a setter only searches. -/
theorem body_of_setter? {name : String} {m : Host.Method}
    (hm : h.descriptor.setter? name = some m) :
    m.body = .builtIn .listIndexOf := by
  obtain ⟨config, hd⟩ := hh.descriptor
  rw [hd] at hm
  obtain ⟨hmem, harity⟩ := Descriptor.mem_methodSequence_of_accessor? hm
  have hcapital := Descriptor.all_isSmallLatin_of_accessor? hm
  have hsearch : (Descriptor.methodSequence Host.Library.list false).all (fun m =>
      m.arity != some 1 || m.name.toList.all (Text.isSmallLatin ·.toNat) ||
        m.body == .builtIn .listIndexOf) = true := rfl
  have hmethod := List.all_eq_true.1 hsearch m hmem
  simpa [harity, hcapital] using hmethod

/-- The property of a function's name, where no method keeps the function from answering for it. -/
theorem getProperty_eq_read (eng : Engine) {f : Prototype.ListFunction}
    (hmethod : h.descriptor.isOverride f.name = true ∨ h.descriptor.method? f.name = none)
    {w : World} {items : Array Value} (hlist : w.list? target = some items) :
    eng.getProperty h (.string f.name) w = (Prototype.Function.ofList f).read target w := by
  have hdata : w.data? h.target = some (.list items) := by
    rw [hh.target]
    exact World.list?_eq_some_iff.1 hlist
  have helement : ¬w.ShowsElement h.target f.name := by
    have hindex : indexKey? f.name = none := by cases f <;> rfl
    simp [World.ShowsElement, World.element?, World.array?, hdata, hindex]
  have hfound : h.prototype? f.name = some (.ofList f) := by
    obtain ⟨config, hd⟩ := hh.descriptor
    simp only [Handler.prototype?, hd]
    cases f <;> rfl
  rw [Engine.getProperty_of_prototype? helement (hh.field?_eq_none f.name) hmethod
    (hh.getter?_eq_none f) hfound, hh.target]

/-- A property that gives the number of items, and that no method keeps it from giving. -/
theorem getProperty_eq_length (eng : Engine) {f : Prototype.ListFunction}
    (hf : f = .length ∨ f = .size)
    (hmethod : h.descriptor.isOverride f.name = true ∨ h.descriptor.method? f.name = none)
    {w : World} {xs : List Value} (hlist : w.list? target = some xs.toArray) :
    eng.getProperty h (.string f.name) w = .ok (.ofIndex xs.length) w := by
  have hread : (Prototype.Function.ofList f).read target = OnList.length target := by
    obtain rfl | rfl := hf <;> rfl
  rw [hh.getProperty_eq_read eng hmethod hlist, hread]
  exact Run.bind_of_ok (listItems_eq_ok_of_list? hlist)

/-- Whichever way the length of a list is asked for, it is the number of its items. -/
theorem showsLength (eng : Engine) {w : World} {xs : List Value}
    (hlist : w.list? target = some xs.toArray) : w.ShowsLength eng h xs.length := by
  obtain ⟨config, hd⟩ := hh.descriptor
  refine ⟨⟨_, hh.getProperty_eq_length eng (f := .length) (.inl rfl) (.inr ?_) hlist,
    clampInt32_ofNat⟩, fun hover => ⟨_, hh.getProperty_eq_length eng (f := .size) (.inr rfl)
      (.inl hover) hlist, clampInt32_ofNat⟩, ⟨_, ?_, clampInt32_ofNat⟩, fun r h' hr htarget => ?_⟩
  · rw [hd]
    rfl
  · rw [hh.target]
    exact Run.bind_of_ok (Host.listOf_eq_ok hlist)
  · unfold Run.ownKeys
    rw [Run.get_bind, hr, Option.bind_some, htarget, hh.target, World.list?_eq_some_iff.1 hlist]
    exact ⟨_, rfl, by simp⟩

end Handler.ServesList

-- With the standard settings the property `size` is one of the ways.
example : (Descriptor.build .standard Host.Library.list false).isOverride "size" = true := by
  decide +kernel

end Membrane
