import Membrane.Proofs.Calling
import Membrane.Proofs.HandlerParts
import Membrane.Proofs.Recognition

/-!
# Steps of iterators

What an iterator has left to give is in a cell of its own, which nothing touches but a step of that
iterator. A step takes the first item and reports what it is carried to the script as; when there is
none left it reports that the iterator is done, and so does every later step.

## Main definitions

* `World.Shows`, `World.ShowsItem`: what a script sees of a value or an item.
* `World.Reports`: the result of a step.
* `World.KeepsIterators`: that some of the iterators are as they were.

## Main results

* `Engine.call_next`: a step.
* `Engine.keepsIterators_advance`: a step leaves all other iterators alone.
* `World.allowsWrites_keepsIterators`, `Request.keepsIterators_run`: writes to host objects and
  requests to handlers leave all of them alone.
-/

namespace Membrane

open Host (Value)

/-! ### What scripts see -/

/-- What a script sees of a host value: the primitive it is carried as, the script value it holds,
or a proxy that answers for the object. -/
inductive World.Shows (w : World) : Value → Script.Value → Prop
  /-- A primitive. -/
  | primitive {v : Value} {s : Script.Value} (h : v.scriptPrimitive? = some s) : w.Shows v s
  /-- A value held by the script. -/
  | held (s : Script.Value) : w.Shows (.script s) s
  /-- An object. -/
  | object {o : Ref .object} {r : Ref .handler} {h : Handler} (hr : w.handlers.get? r = some h)
      (htarget : h.target = .object o) : w.Shows (.object o) (.proxy r)

/-- What a script sees of an item: an entry is an array of its two values. -/
def World.ShowsItem (w : World) : IteratorItem → Script.Value → Prop
  | .value v, s => w.Shows v s
  | .pair k v, s => ∃ a key value, s = .array a ∧ w.arrays.get? a = some [key, value] ∧
      w.Shows k key ∧ w.Shows v value

/-- The result of a step of an iterator: the next item if there is one, and that it is done
otherwise. -/
def World.Reports (w : World) (r : Ref .record) : Option IteratorItem → Prop
  | some item => ∃ s, w.ShowsItem item s ∧
      w.records.get? r = some [(.string "value", s), (.string "done", .boolean false)]
  | none => w.records.get? r = some [(.string "value", .undefined), (.string "done", .boolean true)]

/-- The engine never refuses a value, and the object the value refers to is there. -/
structure World.Crosses (w : World) (eng : Engine) (v : Value) : Prop where
  /-- The value is not refused. -/
  passes : ∀ w', eng.refusesHost w' v = none
  /-- Its object is there. -/
  known : w.Knows v

/-- The values that an item is made of cross. -/
def World.CrossesItem (w : World) (eng : Engine) (item : IteratorItem) : Prop :=
  ∀ v ∈ item.values, w.Crosses eng v

section Showing

variable {eng : Engine} {w w' : World} {v : Value} {s : Script.Value}

theorem World.Shows.later (h : w.Shows v s) (hkeeps : w.KeepsTargets w') : w'.Shows v s := by
  cases h with
  | primitive h => exact .primitive h
  | held s => exact .held s
  | object hr htarget =>
    obtain ⟨h', hr', htarget'⟩ := hkeeps _ _ hr
    exact .object hr' (htarget'.trans htarget)

theorem World.ShowsItem.congr {item : IteratorItem} (h : w.ShowsItem item s)
    (hhandlers : w'.handlers = w.handlers) (harrays : w'.arrays = w.arrays) :
    w'.ShowsItem item s := by
  have hkeeps : w.KeepsTargets w' := .of_handlers_eq hhandlers
  cases item with
  | value v => exact h.later hkeeps
  | pair k v =>
    obtain ⟨a, key, value, rfl, ha, hkey, hvalue⟩ := h
    rw [← harrays] at ha
    exact ⟨a, key, value, rfl, ha, hkey.later hkeeps, hvalue.later hkeeps⟩

theorem World.Reports.congr {r : Ref .record} {item? : Option IteratorItem}
    (h : w.Reports r item?) (hrecords : w'.records = w.records)
    (hhandlers : w'.handlers = w.handlers) (harrays : w'.arrays = w.arrays) :
    w'.Reports r item? := by
  cases item? with
  | none =>
    unfold World.Reports
    rwa [hrecords]
  | some item =>
    obtain ⟨s, hshows, hr⟩ := h
    exact ⟨s, hshows.congr hhandlers harrays, by rwa [hrecords]⟩

/-- A script sees what a value was carried to it as. -/
theorem Engine.shows_of_toScript (h : eng.toScript v w = .ok s w') : w'.Shows v s := by
  replace h := carryToScript_of_toScript h
  obtain ⟨s', hs'⟩ | ⟨s', rfl⟩ | ⟨r, rfl⟩ := crossing_cases v
  · rw [carryToScript_of_primitive hs'] at h
    cases h
    exact .primitive hs'
  · cases h
    exact .held s
  · obtain ⟨r', w₁, hnew, hr'⟩ := Run.bind_eq_ok h
    cases hr'
    obtain ⟨h', hget, htarget⟩ := eng.newHandler_target hnew
    exact .object hget htarget

/-- Values that cross are carried to the script. -/
theorem Engine.toScriptAll_eq_ok {vs : List Value} (hcross : ∀ v ∈ vs, w.Crosses eng v) :
    ∃ ss w', eng.toScriptAll vs w = .ok ss w' ∧ List.Forall₂ w'.Shows vs ss ∧
      w.AddsHandlers w' := by
  induction vs generalizing w with
  | nil => exact ⟨[], w, rfl, .nil, refl w⟩
  | cons v vs ih =>
    obtain ⟨hv, hvs⟩ := List.forall_mem_cons.1 hcross
    obtain ⟨s, w₁, hs⟩ := toScript_eq_ok_of_crosses (hv.passes w) hv.known
    have hadds : w.AddsHandlers w₁ := (eng.within_toScript v).rel_of_ok hs
    obtain ⟨ss, w₂, hss, hshows, hadds'⟩ := ih fun u hu =>
      ⟨(hvs u hu).passes, (hvs u hu).known.congr hadds.alike.objects⟩
    refine ⟨s :: ss, w₂, ?_, .cons ((shows_of_toScript hs).later hadds'.keepsTargets) hshows,
      IsTrans.trans w w₁ w₂ hadds hadds'⟩
    rw [toScriptAll, List.mapM_cons, Run.bind_of_ok hs]
    exact Run.bind_of_ok hss

/-- Values that cross are carried to the script as the items of a fresh array. -/
theorem Engine.toScriptArray_eq_ok {vs : List Value} (hcross : ∀ v ∈ vs, w.Crosses eng v) :
    ∃ a ss w', eng.toScriptArray vs w = .ok (.array a) w' ∧ w'.arrays.get? a = some ss ∧
      List.Forall₂ w'.Shows vs ss ∧ w'.objects = w.objects := by
  obtain ⟨ss, w₁, hss, hshows, hadds⟩ := toScriptAll_eq_ok hcross
  exact ⟨_, ss, _, Run.bind_of_ok hss, Store.get?_alloc_next _ _,
    hshows.imp fun v s hs => hs.later (.of_handlers_eq rfl), hadds.alike.objects⟩

/-- An item whose values cross is carried to the script. -/
theorem Engine.itemToScript_eq_ok {item : IteratorItem} (hcross : w.CrossesItem eng item) :
    ∃ s w', eng.itemToScript item w = .ok s w' ∧ w'.ShowsItem item s := by
  cases item with
  | value v =>
    have hv := hcross v List.mem_cons_self
    obtain ⟨s, w', hs⟩ := toScript_eq_ok_of_crosses (hv.passes w) hv.known
    exact ⟨s, w', hs, shows_of_toScript hs⟩
  | pair k v =>
    have hk := hcross k List.mem_cons_self
    have hv := hcross v (List.mem_cons_of_mem k List.mem_cons_self)
    obtain ⟨key, w₁, hkey⟩ := toScript_eq_ok_of_crosses (hk.passes w) hk.known
    have hadds : w.AddsHandlers w₁ := (eng.within_toScript k).rel_of_ok hkey
    obtain ⟨value, w₂, hvalue⟩ :=
      toScript_eq_ok_of_crosses (hv.passes w₁) (hv.known.congr hadds.alike.objects)
    have hadds' : w₁.AddsHandlers w₂ := (eng.within_toScript v).rel_of_ok hvalue
    have hcarry : eng.itemToScript (.pair k v) w = Run.newScriptArray [key, value] w₂ :=
      (Run.bind_of_ok hkey).trans (Run.bind_of_ok hvalue)
    refine ⟨_, _, hcarry, _, key, value, rfl, Store.get?_alloc_next _ _, ?_, ?_⟩
    · exact ((shows_of_toScript hkey).later hadds'.keepsTargets).later (.of_handlers_eq rfl)
    · exact (shows_of_toScript hvalue).later (.of_handlers_eq rfl)

end Showing

/-! ### What keeps iterators -/

/-- The iterators for which a condition holds have the same items left to give, callables are what
they were, and objects that were there still are. -/
structure World.KeepsIterators (P : Ref .iterator → Prop) (w w' : World) : Prop where
  /-- The items left to give. -/
  iterators : ∀ state, P state → ∀ items, w.iterators.get? state = some items →
    w'.iterators.get? state = some items
  /-- The callables. -/
  functions : ∀ f k, w.functions.get? f = some k → w'.functions.get? f = some k
  /-- The objects. -/
  knows : ∀ v, w.Knows v → w'.Knows v

instance (P : Ref .iterator → Prop) : IsPreorder World (World.KeepsIterators P) where
  refl _ := ⟨fun _ _ _ h => h, fun _ _ h => h, fun _ h => h⟩
  trans _ _ _ h h' :=
    ⟨fun state hstate items hitems =>
      h'.iterators state hstate items (h.iterators state hstate items hitems),
    fun f k hf => h'.functions f k (h.functions f k hf), fun v hv => h'.knows v (h.knows v hv)⟩

namespace World

variable {P : Ref .iterator → Prop} {w w' : World}

theorem KeepsIterators.of_eq (hiterators : w'.iterators = w.iterators)
    (hfunctions : w'.functions = w.functions) (hobjects : w'.objects = w.objects) :
    w.KeepsIterators P w' :=
  ⟨fun _ _ _ h => by rwa [hiterators], fun _ _ h => by rwa [hfunctions],
    fun _ h => h.congr hobjects⟩

theorem KeepsIterators.crossesItem (h : w.KeepsIterators P w') {eng : Engine}
    {item : IteratorItem} (hcross : w.CrossesItem eng item) : w'.CrossesItem eng item :=
  fun v hv => ⟨(hcross v hv).passes, h.knows v (hcross v hv).known⟩

theorem AddsHandlers.keepsIterators (h : w.AddsHandlers w') : w.KeepsIterators P w' :=
  .of_eq h.iterators_eq (by rw [h.rest]) h.alike.objects

theorem AddsObjects.knows {v : Value} (h : w.AddsObjects w') (hv : w.Knows v) : w'.Knows v := by
  intro r hr
  obtain ⟨o, ho⟩ := hv r hr
  exact ⟨o, h.objects r o ho⟩

theorem AddsObjects.keepsIterators (h : w.AddsObjects w') : w.KeepsIterators P w' :=
  ⟨fun _ _ _ hitems => by rwa [h.rest], fun _ _ hf => by rwa [h.rest], fun _ => h.knows⟩

/-- No change of a host object touches an iterator. -/
theorem keepsIterators_changeData (w : World) (v : Value) (change : Host.Data → Host.Data) :
    w.KeepsIterators P (w.changeData v change) := by
  have hknows := (w.proceeds_changeData v change).objects
  rw [rest_changeData] at hknows ⊢
  exact ⟨fun _ _ _ h => h, fun _ _ h => h, hknows⟩

/-- No write touches an iterator. -/
theorem allowsWrites_keepsIterators : AllowsWrites (KeepsIterators P) where
  changeData w v change _ := w.keepsIterators_changeData v change
  setField w v name u := by
    have hknows := (w.proceeds_setField v name u).objects
    rw [rest_setField] at hknows ⊢
    exact ⟨fun _ _ _ h => h, fun _ _ h => h, hknows⟩
  putStatic _ _ _ _ := .of_eq rfl rfl rfl

end World

/-! ### Requests -/

section Requests

variable {eng : Engine} {P : Ref .iterator → Prop}

theorem Run.keepsIterators_newFunction (k : Callable) :
    (Run.newFunction k).Within (World.KeepsIterators P) :=
  fun _ => ⟨fun _ _ _ h => h, fun _ _ hf => Store.get?_alloc_of_some k hf, fun _ h => h⟩

variable (hmethod : ∀ code receiver args,
  (eng.method code receiver args).Within (World.KeepsIterators P))
include hmethod

theorem Engine.keepsIterators_parts (h : Handler) :
    h.HoldsOfParts eng fun _ x => x.Within (World.KeepsIterators P) :=
  World.allowsWrites_keepsIterators.parts hmethod
    (fun v => (eng.within_toScript v).mono fun _ _ => World.AddsHandlers.keepsIterators)
    (fun v => (eng.within_toHost v).mono fun _ _ => World.AddsObjects.keepsIterators)
    Run.keepsIterators_newFunction (Run.within_uniqueKeys fun _ _ => .of_eq rfl rfl rfl) h

/-- Requests to handlers leave the iterators alone, as long as the methods of the host do. -/
theorem Request.keepsIterators_run (h : Handler) (r : Ref .handler) (q : Request) :
    (q.run eng r h).Within (World.KeepsIterators P) :=
  (Engine.keepsIterators_parts hmethod h).run r q

end Requests

/-! ### Steps -/

namespace Engine

variable {eng : Engine} {f : Ref .function} {state : Ref .iterator} {w : World}

/-- To carry an item to the script leaves the iterators alone. -/
theorem keepsIterators_itemToScript (eng : Engine) {P : Ref .iterator → Prop}
    (item : IteratorItem) : (eng.itemToScript item).Within (World.KeepsIterators P) := by
  have hscript (v : Value) : (eng.toScript v).Within (World.KeepsIterators P) :=
    (eng.within_toScript v).mono fun _ _ => World.AddsHandlers.keepsIterators
  cases item with
  | value v => exact hscript v
  | pair k v => exact .bind (hscript k) fun _ => .bind (hscript v) fun _ _ => .of_eq rfl rfl rfl

/-- A step of an iterator leaves all other iterators alone. -/
theorem keepsIterators_advance (eng : Engine) (state : Ref .iterator) :
    (eng.advance state).Within (World.KeepsIterators (· ≠ state)) := by
  have htake : (Run.takeItem state).Within (World.KeepsIterators (· ≠ state)) := by
    intro w
    unfold Run.takeItem
    rw [Run.get_bind]
    cases (w.iterators.get? state).getD [] with
    | nil => exact refl w
    | cons item rest =>
      refine ⟨fun other hother items hitems => ?_, fun _ _ h => h, fun _ h => h⟩
      exact (Store.get?_modify_of_ne _ _ (Ne.symm hother)).trans hitems
  have hrecord (value : Script.Value) (done : Bool) :
      (Run.newRecord [(.string "value", value), (.string "done", .boolean done)]).Within
        (World.KeepsIterators (· ≠ state)) :=
    fun _ => .of_eq rfl rfl rfl
  refine .bind htake fun item? => ?_
  cases item? with
  | none => exact hrecord .undefined true
  | some item => exact .bind (eng.keepsIterators_itemToScript item) fun s => hrecord s false

/-- A step reports the next item and leaves the others, or reports that the iterator is done. -/
theorem advance_eq_ok {items : List IteratorItem} (hitems : w.iterators.get? state = some items)
    (hcross : ∀ item ∈ items, w.CrossesItem eng item) :
    ∃ r w', eng.advance state w = .ok (.object r) w' ∧ w'.Reports r items.head? ∧
      w'.iterators.get? state = some items.tail := by
  cases items with
  | nil =>
    have htake : Run.takeItem state w = .ok none w := by
      unfold Run.takeItem
      rw [Run.get_bind, hitems]
      rfl
    exact ⟨_, _, Run.bind_of_ok htake, Store.get?_alloc_next _ _, hitems⟩
  | cons item rest =>
    have hcross' : (w.dropItem state rest).CrossesItem eng item := fun v hv =>
      ⟨(hcross item List.mem_cons_self v hv).passes, (hcross item List.mem_cons_self v hv).known⟩
    obtain ⟨s, w₁, hitem, hshows⟩ := itemToScript_eq_ok hcross'
    have hleft : (w.dropItem state rest).iterators.get? state = some rest :=
      (Store.get?_modify_self _ _ _).trans (congrArg (Option.map fun _ => rest) hitems)
    have hkeeps : (w.dropItem state rest).KeepsIterators (fun _ => True) w₁ :=
      (eng.keepsIterators_itemToScript item).rel_of_ok hitem
    have hadvance : eng.advance state w =
        Run.newRecord [(.string "value", s), (.string "done", .boolean false)] w₁ :=
      (Run.bind_of_ok (takeItem_eq_ok hitems)).trans (Run.bind_of_ok hitem)
    exact ⟨_, _, hadvance, ⟨s, hshows.congr rfl rfl, Store.get?_alloc_next _ _⟩,
      hkeeps.iterators state trivial rest hleft⟩

/-- The step of an iterator is called, and reports the next item or that the iterator is done. -/
theorem call_next (hf : w.functions.get? f = some (.next state)) {items : List IteratorItem}
    (hitems : w.iterators.get? state = some items)
    (hcross : ∀ item ∈ items, w.CrossesItem eng item) (n : Nat) (this : Script.Value)
    (args : List Script.Value) :
    ∃ r w', eng.call (n + 1) (.function f) this args w = .ok (.object r) w' ∧
      w'.Reports r items.head? ∧ w'.iterators.get? state = some items.tail := by
  have hitems' : (w.entered ⟨.function f, this, args⟩).iterators.get? state = some items := hitems
  have hcross' : ∀ item ∈ items, (w.entered ⟨.function f, this, args⟩).CrossesItem eng item :=
    fun item hitem v hv => ⟨(hcross item hitem v hv).passes, (hcross item hitem v hv).known⟩
  obtain ⟨r, w', hadvance, hreports, hleft⟩ := advance_eq_ok hitems' hcross'
  refine ⟨r, { w' with held := w.held }, ?_, hreports.congr rfl rfl rfl, hleft⟩
  rw [eng.call_function this args n hf]
  exact congrArg (Run.holdOnly w.held) hadvance

/-- The step of an iterator that is called leaves all other iterators alone. -/
theorem keepsIterators_call_next (hf : w.functions.get? f = some (.next state)) (depth : Nat)
    (this : Script.Value) (args : List Script.Value) :
    w.KeepsIterators (· ≠ state)
      (Outcome.world (eng.call depth (.function f) this args w)) := by
  refine related_call (fun _ _ _ => .of_eq rfl rfl rfl) fun g hg => ?_
  cases hg
  exact ⟨_, hf, fun _ => eng.keepsIterators_advance state⟩

end Engine

end Membrane
