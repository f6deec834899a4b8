import Membrane.Proofs.Crossing
import Membrane.Proofs.Equality
import Membrane.Proofs.Items
import Membrane.Proofs.ListFunction
import Membrane.Proofs.Proceeding

/-!
# Values handed back

A list or a set that hands a value to the script is asked for it again: whether it contains the
value, where, and to remove it. The value crosses twice on its way, and what comes back is compared
as the host compares. A value of a kind that scripts tell apart comes back as itself and is found. A
byte, a short integer, a single-precision number and a character come back as the wider kind they
have become, and lists and sets take them for that.

## Main definitions

* `Script.Value.TakenFor`: what lists and sets take a script value for.
* `Engine.Yields`: what a step of an iterator gives.

## Main results

* `Engine.takenFor_of_standsFor`: lists and sets take a value for what it stands for.
* `Engine.yields_value`, `Engine.yields_pair`: what an iterator gives.
* `OnSet.forEach_congr`: what a callback is called on.
* `taken_for_widened`: values handed back are taken for what they have become.
-/

namespace Membrane

open Host (Value)

/-- From a world on, lists and sets take a script value for a given host value. -/
structure Script.Value.TakenFor (s : Script.Value) (eng : Engine) (w : World) (v : Host.Value) :
    Prop where
  /-- A list includes it just if it holds the host value. -/
  includes : ∀ (w' : World) (target : Host.Value) (items : List Host.Value), w.KeepsTargets w' →
    w'.list? target = some items.toArray →
    OnList.includes eng target [s] w' = .ok (.boolean (items.any (· == v))) w'
  /-- A list has it where it holds the host value first. -/
  indexOf : ∀ (w' : World) (target : Host.Value) (items : List Host.Value), w.KeepsTargets w' →
    w'.list? target = some items.toArray →
    OnList.indexOf eng target [s] w' = .ok (OnList.ofSearch (items.findIdx? (· == v))) w'
  /-- A set has it just if the host value is a member. -/
  has : ∀ (w' : World) (target : Host.Value) (members : List Host.Value), w.KeepsTargets w' →
    w'.set? target = some members →
    OnSet.has eng target [s] w' = .ok (.boolean (members.any (· == v))) w'
  /-- A set removes the host value, and tells whether it was a member. -/
  delete : ∀ (w' : World) (target : Host.Value) (members : List Host.Value), w.KeepsTargets w' →
    w'.set? target = some members →
    OnSet.delete eng target [s] w' =
      .ok (.boolean (members.any (· == v))) (w'.changeMembers target (Members.erase · v))

theorem setMembers_eq_ok_of_set? {target : Value} {members : List Value} {w : World}
    (h : w.set? target = some members) : setMembers target w = .ok members w := by
  unfold setMembers
  rw [Run.get_bind, h]
  rfl

namespace Engine

variable {eng : Engine} {s : Script.Value} {v target : Value} {items members : List Value}
  {w w' : World}

theorem search_of_toHost (hs : eng.toHost s w = .ok v w)
    (hlist : w.list? target = some items.toArray) :
    OnList.search eng target [s] Sequence.searchForward w = .ok (items.findIdx? (· == v)) w := by
  have hstart : Sequence.searchForward items v [s] = items.findIdx? (· == v) := by
    simp [Sequence.searchForward, Arguments.int, resolveIndex]
  change (eng.toHost s >>= fun v => listValues target >>= fun items =>
    pure (Sequence.searchForward items v [s])) w = _
  rw [Run.bind_of_ok hs, Run.bind_of_ok (listValues_eq_ok hlist), hstart]
  rfl

/-- Lists and sets take a value for what it stands for. -/
theorem takenFor_of_standsFor (hopen : eng.Open) (hs : s.StandsFor w v) : s.TakenFor eng w v where
  includes w' target items hw hlist := by
    unfold OnList.includes
    rw [Run.bind_of_ok (search_of_toHost (toHost_of_standsFor hopen hs hw) hlist)]
    rw [List.findIdx?_isSome]
    rfl
  indexOf w' target items hw hlist := by
    unfold OnList.indexOf
    rw [Run.bind_of_ok (search_of_toHost (toHost_of_standsFor hopen hs hw) hlist)]
    rfl
  has w' target members hw hset := by
    have hhost : eng.toHost (Arguments.get [s] 0) w' = .ok v w' := toHost_of_standsFor hopen hs hw
    unfold OnSet.has
    rw [Run.bind_of_ok hhost, Run.bind_of_ok (setMembers_eq_ok_of_set? hset)]
    rfl
  delete w' target members hw hset := by
    have hhost : eng.toHost (Arguments.get [s] 0) w' = .ok v w' := toHost_of_standsFor hopen hs hw
    unfold OnSet.delete
    rw [Run.bind_of_ok hhost, Run.bind_of_ok (setMembers_eq_ok_of_set? hset)]
    rfl

end Engine

/-! ### Values that come back as themselves -/

section Same

variable {eng : Engine} {s : Script.Value} {v target : Value} {items members : List Value}
  {w w' : World}

/-- The first place at which a list holds a value is not after any other. -/
theorem findIdx?_le_of_getElem? {i : Nat} (hi : items[i]? = some v) :
    ∃ j, items.findIdx? (· == v) = some j ∧ j ≤ i := by
  obtain ⟨hlt, rfl⟩ := List.getElem?_eq_some_iff.1 hi
  have hany : (items.findIdx? (· == items[i])).isSome = true := by
    rw [List.findIdx?_isSome, List.any_eq_true]
    exact ⟨items[i], List.getElem_mem hlt, BEq.rfl⟩
  obtain ⟨j, hj⟩ := Option.isSome_iff_exists.1 hany
  refine ⟨j, hj, ?_⟩
  obtain ⟨-, hbefore⟩ := (List.findIdx?_eq_some_iff_getElem.1 hj).2
  by_contra hij
  exact hbefore i (by omega) BEq.rfl

/-- A list finds a value it holds. -/
theorem finds_of_takenFor (h : s.TakenFor eng w v) (hw : w.KeepsTargets w')
    (hlist : w'.list? target = some items.toArray) {i : Nat} (hi : items[i]? = some v) :
    OnList.includes eng target [s] w' = .ok (.boolean true) w' ∧
      ∃ j ≤ i, OnList.indexOf eng target [s] w' = .ok (.ofIndex j) w' := by
  obtain ⟨j, hj, hji⟩ := findIdx?_le_of_getElem? hi
  have hany : items.any (· == v) = true := by
    rw [← List.findIdx?_isSome, hj, Option.isSome_some]
  refine ⟨?_, j, hji, ?_⟩
  · rw [h.includes w' target items hw hlist, hany]
  · rw [h.indexOf w' target items hw hlist, hj]
    rfl

/-- Of members that are all different, none is left like the one that was removed. -/
theorem any_erase_eq_false (hdistinct : members.Pairwise fun a b => (a == b) = false) :
    (Members.erase members v).any (· == v) = false := by
  induction members with
  | nil => rfl
  | cons a rest ih =>
    obtain ⟨ha, hrest⟩ := List.pairwise_cons.1 hdistinct
    unfold Members.erase at ih ⊢
    by_cases hav : a == v
    · rw [List.eraseP_cons_of_pos (p := (· == v)) hav]
      refine List.any_eq_false.2 fun b hb hbv => ?_
      have hab : a == b := BEq.trans hav (BEq.symm hbv)
      rw [ha b hb] at hab
      cases hab
    · rw [List.eraseP_cons_of_neg (p := (· == v)) hav, List.any_cons, ih hrest]
      simpa using hav

/-- A set has a value that is a member, and removes it. -/
theorem erases_of_takenFor (h : s.TakenFor eng w v) (hw : w.KeepsTargets w')
    (hset : w'.set? target = some members) (hmem : v ∈ members)
    (hdistinct : members.Pairwise fun a b => (a == b) = false) :
    OnSet.has eng target [s] w' = .ok (.boolean true) w' ∧
      ∃ w₁, OnSet.delete eng target [s] w' = .ok (.boolean true) w₁ ∧
        w₁.set? target = some (Members.erase members v) ∧
        (Members.erase members v).any (· == v) = false := by
  have hany : members.any (· == v) = true := List.any_eq_true.2 ⟨v, hmem, BEq.rfl⟩
  have hhas := h.has w' target members hw hset
  have hdelete := h.delete w' target members hw hset
  rw [hany] at hhas hdelete
  exact ⟨hhas, _, hdelete, World.set?_changeMembers hset _, any_erase_eq_false hdistinct⟩

end Same

/-! ### What is handed to the script -/

section Handed

variable {eng : Engine} {s : Script.Value} {v target : Value} {items members : List Value}
  {args : List Script.Value} {w w' : World}

/-- The element at an index in range is carried to the script. -/
theorem item_eq_toScript {i : Nat} (hlist : w.list? target = some items.toArray)
    (hindex : Sequence.itemIndex? (Arguments.int args 0 0) items.length = some i)
    (hi : items[i]? = some v) : OnList.item eng target args w = eng.toScript v w := by
  unfold OnList.item
  rw [Run.bind_of_ok (listItems_eq_ok_of_list? hlist)]
  simp only [List.size_toArray, hindex, Option.bind_some, List.getElem?_toArray, hi]

/-- An open engine carries a value to the script as one that is taken for what it has become. -/
theorem toScript_takenFor (hopen : eng.Open) (hheld : v.isWellHeld = true) (hknown : w.Knows v) :
    ∃ s w₁, eng.toScript v w = .ok s w₁ ∧ w.AddsHandlers w₁ ∧ s.TakenFor eng w₁ v.widened := by
  obtain ⟨s, w₁, hs⟩ := Engine.toScript_eq_ok hopen hknown
  have hadds := eng.within_toScript v w
  rw [hs] at hadds
  exact ⟨s, w₁, hs, hadds, Engine.takenFor_of_standsFor hopen (Engine.standsFor_toScript hheld hs)⟩

theorem takenFor_later (h : s.TakenFor eng w v) (hw : w.KeepsTargets w') : s.TakenFor eng w' v where
  includes w₁ target items hw₁ := h.includes w₁ target items (IsTrans.trans w w' w₁ hw hw₁)
  indexOf w₁ target items hw₁ := h.indexOf w₁ target items (IsTrans.trans w w' w₁ hw hw₁)
  has w₁ target members hw₁ := h.has w₁ target members (IsTrans.trans w w' w₁ hw hw₁)
  delete w₁ target members hw₁ := h.delete w₁ target members (IsTrans.trans w w' w₁ hw hw₁)

end Handed

/-! ### Iterators -/

section Iterators

variable {eng : Engine} {s : Script.Value} {v target : Value} {state : Ref .iterator}
  {item : IteratorItem} {rest : List IteratorItem} {w w₁ : World}

/-- A script value is an iterator with the items left to give. -/
def World.Iterates (w : World) (it : Script.Value) (state : Ref .iterator)
    (items : List IteratorItem) : Prop :=
  (∃ r f properties, it = .object r ∧ w.records.get? r = some properties ∧
    properties.get? (.string "next") = some (.function f) ∧
    w.functions.get? f = some (.next state)) ∧
  w.iterators.get? state = some items

/-- A step of an iterator gives a value and is not done. -/
def Engine.Yields (eng : Engine) (state : Ref .iterator) (s : Script.Value) (w w' : World) : Prop :=
  ∃ r, eng.advance state w = .ok (.object r) w' ∧
    w'.records.get? r = some [(.string "value", s), (.string "done", .boolean false)]

/-- A new iterator has all items of its target to give. -/
theorem newIterator_iterates (target : Value) (kind : IterationKind) (w : World) :
    ∃ it state w', Run.newIterator target kind w = .ok it w' ∧
      w'.Iterates it state (w.iteratorItems target kind) ∧ w.Alike w' := by
  refine ⟨_, w.iterators.next, _, rfl, ⟨⟨w.records.next, w.functions.next, _, rfl,
    Store.get?_alloc_next _ _, rfl, ?_⟩, Store.get?_alloc_next _ _⟩, rfl, rfl, rfl⟩
  exact Store.get?_alloc_of_some _ (Store.get?_alloc_next _ _)

/-- The world in which an iterator has given up the first of its items. -/
def World.dropItem (w : World) (state : Ref .iterator) (rest : List IteratorItem) : World :=
  { w with iterators := w.iterators.modify state fun _ => rest }

theorem takeItem_eq_ok (hstate : w.iterators.get? state = some (item :: rest)) :
    Run.takeItem state w = .ok (some item) (w.dropItem state rest) := by
  unfold Run.takeItem
  rw [Run.get_bind, hstate]
  rfl

/-- A step gives what its item is carried to the script as, and leaves the other items. -/
theorem yields_of_itemToScript (hstate : w.iterators.get? state = some (item :: rest))
    (hitem : eng.itemToScript item (w.dropItem state rest) = .ok s w₁)
    (hsame : w₁.iterators = (w.dropItem state rest).iterators) :
    ∃ w', eng.Yields state s w w' ∧ w'.iterators.get? state = some rest ∧ w₁.Alike w' ∧
      w'.handlers = w₁.handlers ∧ w'.arrays = w₁.arrays := by
  have hadvance : eng.advance state w =
      Run.newRecord [(.string "value", s), (.string "done", .boolean false)] w₁ := by
    unfold Engine.advance
    exact (Run.bind_of_ok (takeItem_eq_ok hstate)).trans (Run.bind_of_ok hitem)
  have hrest : w₁.iterators.get? state = some rest := by
    rw [hsame, World.dropItem, Store.get?_modify_self, hstate]
    rfl
  exact ⟨_, ⟨_, hadvance, Store.get?_alloc_next _ _⟩, hrest, ⟨rfl, rfl, rfl⟩, rfl, rfl⟩

/-- The item of a member. -/
def memberItem : IterationKind → Value → IteratorItem
  | .entries, v => .pair v v
  | .keys, v | .values, v => .value v

theorem iteratorItems_of_set? {members : List Value} (hset : w.set? target = some members)
    (kind : IterationKind) : w.iteratorItems target kind = members.map (memberItem kind) := by
  rw [World.iteratorItems, World.set?_eq_some_iff.1 hset]
  cases kind <;> rfl

/-- What is given for a member is taken for what it has become, and so are both items of an
entry. -/
def World.Hands (w : World) (eng : Engine) (v : Value) : IterationKind → Script.Value → Prop
  | .entries, s => ∃ a key value, s = .array a ∧ w.arrays.get? a = some [key, value] ∧
      key.TakenFor eng w v.widened ∧ value.TakenFor eng w v.widened
  | .keys, s | .values, s => s.TakenFor eng w v.widened

theorem hands_congr {kind : IterationKind} (h : w.Hands eng v kind s)
    (hhandlers : w₁.handlers = w.handlers) (harrays : w₁.arrays = w.arrays) :
    w₁.Hands eng v kind s := by
  have hkeeps : w.KeepsTargets w₁ := .of_handlers_eq hhandlers
  cases kind with
  | entries =>
    obtain ⟨a, key, value, rfl, ha, hkey, hvalue⟩ := h
    rw [← harrays] at ha
    exact ⟨a, key, value, rfl, ha, takenFor_later hkey hkeeps, takenFor_later hvalue hkeeps⟩
  | _ => exact takenFor_later h hkeeps

/-- The item of a member is carried to the script. -/
theorem itemToScript_hands (hopen : eng.Open) (kind : IterationKind) (hheld : v.isWellHeld = true)
    (hknown : w.Knows v) :
    ∃ s w₁, eng.itemToScript (memberItem kind v) w = .ok s w₁ ∧ w.Alike w₁ ∧
      w₁.iterators = w.iterators ∧ w₁.Hands eng v kind s := by
  obtain ⟨key, w₁, hkey, hadds, hkeyTaken⟩ := toScript_takenFor hopen hheld hknown
  cases kind with
  | entries =>
    obtain ⟨value, w₂, hvalue, hadds', hvalueTaken⟩ :=
      toScript_takenFor hopen hheld (hknown.congr hadds.alike.objects)
    have hcarry : eng.itemToScript (.pair v v) w = Run.newScriptArray [key, value] w₂ :=
      (Run.bind_of_ok hkey).trans (Run.bind_of_ok hvalue)
    refine ⟨_, _, hcarry, (hadds.alike.trans hadds'.alike).trans ⟨rfl, rfl, rfl⟩,
      hadds'.iterators_eq.trans hadds.iterators_eq, _, key, value, rfl,
      Store.get?_alloc_next _ _, ?_, ?_⟩
    · exact takenFor_later hkeyTaken hadds'.keepsTargets
    · exact takenFor_later hvalueTaken (.of_handlers_eq rfl)
  | keys => exact ⟨key, w₁, hkey, hadds.alike, hadds.iterators_eq, hkeyTaken⟩
  | values => exact ⟨key, w₁, hkey, hadds.alike, hadds.iterators_eq, hkeyTaken⟩

/-- A step of an iterator over a set gives its next member. -/
theorem yields_member (hopen : eng.Open) {kind : IterationKind}
    (hstate : w.iterators.get? state = some (memberItem kind v :: rest))
    (hheld : v.isWellHeld = true) (hknown : w.Knows v) :
    ∃ s w', eng.Yields state s w w' ∧ w'.iterators.get? state = some rest ∧ w.Alike w' ∧
      w'.Hands eng v kind s := by
  have hdrop : w.Alike (w.dropItem state rest) := ⟨rfl, rfl, rfl⟩
  obtain ⟨s, w₁, hitem, halike, hsame, hands⟩ :=
    itemToScript_hands hopen kind hheld (hknown.congr hdrop.objects)
  obtain ⟨w', hyields, hrest, halike', hhandlers, harrays⟩ :=
    yields_of_itemToScript hstate hitem hsame
  exact ⟨s, w', hyields, hrest, (hdrop.trans halike).trans halike',
    hands_congr hands hhandlers harrays⟩

end Iterators

/-! ### Callbacks -/

section Callbacks

variable {eng : Engine} {invoke invoke' : Invoke} {target : Value} {members : List Value}
  {callee receiver this : Script.Value} {args : List Script.Value}

/-- A call depends on what the callable does in worlds with the same handlers. -/
theorem Run.call_congr {w : World} (h : ∀ r w', callee = .function r → w'.handlers = w.handlers →
    invoke' r this args w' = invoke r this args w') :
    Run.call invoke' callee this args w = Run.call invoke callee this args w := by
  cases callee with
  | function r =>
    change Run.holdOnly _ (invoke' r this args _) = Run.holdOnly _ (invoke r this args _)
    exact congrArg _ (h r _ rfl rfl)
  | _ => rfl

/-- Whatever is visited, the callback is called only on values that are taken for what a member has
become: callables that agree on such calls make no difference. -/
theorem visit_congr (hopen : eng.Open)
    (hcall : ∀ r v s w, callee = .function r → v ∈ members → s.TakenFor eng w v.widened →
      invoke' r receiver [s, s, this] w = invoke r receiver [s, s, this] w)
    (hheld : ∀ v ∈ members, v.isWellHeld = true) (w : World) :
    OnSet.visit eng invoke' this callee receiver members w =
      OnSet.visit eng invoke this callee receiver members w := by
  induction members generalizing w with
  | nil => rfl
  | cons v rest ih =>
    have hrest := ih (fun r v s w hr hv => hcall r v s w hr (List.mem_cons_of_mem _ hv))
      fun v hv => hheld v (List.mem_cons_of_mem _ hv)
    unfold OnSet.visit
    refine Run.bind_eq_bind rfl fun s w₁ hs => Run.bind_eq_bind ?_ fun result w₂ _ =>
      Run.bind_eq_bind rfl fun _ w₃ _ => hrest w₃
    have hstands := Engine.standsFor_toScript (hheld v List.mem_cons_self) hs
    have htaken := Engine.takenFor_of_standsFor hopen hstands
    exact Run.call_congr fun r w' hr hhandlers =>
      hcall r v s w' hr List.mem_cons_self (takenFor_later htaken (.of_handlers_eq hhandlers))

/-- The callback of a visit of a set is called only on values that are taken for what a member has
become. -/
theorem forEach_congr (hopen : eng.Open) {w : World} (hset : w.set? target = some members)
    (hheld : ∀ v ∈ members, v.isWellHeld = true)
    (hcall : ∀ r v s w, Arguments.get args 0 = .function r → v ∈ members →
      s.TakenFor eng w v.widened →
      invoke' r (Arguments.receiver args 1) [s, s, this] w =
        invoke r (Arguments.receiver args 1) [s, s, this] w) :
    OnSet.forEach eng invoke' target this args w = OnSet.forEach eng invoke target this args w := by
  unfold OnSet.forEach
  refine congrArg (Run.holdOnly w.held) (Run.bind_eq_bind rfl fun callback w₁ hcallback =>
    Run.bind_eq_bind rfl fun members' w₂ hmembers => Run.bind_eq_bind rfl fun _ w₃ _ =>
      Run.bind_eq_bind ?_ fun _ _ _ => rfl)
  have hquiet := (Arguments.looks_callback args 0).alike w
  rw [hcallback] at hquiet
  have hsame : members' = members := by
    have hset₁ : w.set? target = some members' :=
      (hquiet.set? target).symm.trans (setMembers_eq_ok hmembers)
    rw [hset] at hset₁
    exact (Option.some.inj hset₁).symm
  rw [hsame, callback_eq hcallback]
  exact visit_congr hopen hcall hheld w₃

end Callbacks

/-! ### Values handed back -/

open Prototype (ListFunction SetFunction)

/-- With an engine that refuses nothing, a value that a list or a set hands to the script is taken,
whenever the script hands it back, for the value it has become by crossing. This holds of the
element at an index in range, of what the iterators over a set give for a member, and of all that
the callback of a set is called on. A value that has become no other is therefore recognised: a list
that holds it includes it and has it at no later index, and a set that has it as a member tells so,
removes it and tells so, and has it no more. It is so in every world in which the handlers answer
for the values they did, and whatever happens leads to such a world, as long as the embedder's code
does not turn a handler to another value. -/
theorem taken_for_widened (eng : Engine) (hopen : eng.Open) (invoke : Invoke) (steps : Nat)
    (target : Value) (this : Script.Value) (args : List Script.Value) (w : World) :
    (∀ (items : List Value) (i : Nat) (v : Value), w.list? target = some items.toArray →
      Sequence.itemIndex? (Arguments.int args 0 0) items.length = some i → items[i]? = some v →
      v.isWellHeld = true → w.Knows v →
      ∃ s w₁, (ListFunction.item).run eng invoke steps target this args w = .ok s w₁ ∧
        w.Alike w₁ ∧ s.TakenFor eng w₁ v.widened) ∧
    (∀ (members : List Value) (kind : IterationKind), w.set? target = some members →
      ∃ it state w₁, Run.newIterator target kind w = .ok it w₁ ∧ w.Alike w₁ ∧
        w₁.Iterates it state (members.map (memberItem kind))) ∧
    (∀ (state : Ref .iterator) (kind : IterationKind) (v : Value) (rest : List IteratorItem),
      w.iterators.get? state = some (memberItem kind v :: rest) → v.isWellHeld = true →
      w.Knows v →
      ∃ s w₁, eng.Yields state s w w₁ ∧ w₁.iterators.get? state = some rest ∧ w.Alike w₁ ∧
        w₁.Hands eng v kind s) ∧
    (∀ (members : List Value) (invoke' : Invoke), w.set? target = some members →
      (∀ v ∈ members, v.isWellHeld = true) →
      (∀ r v s w, Arguments.get args 0 = .function r → v ∈ members →
        s.TakenFor eng w v.widened →
        invoke' r (Arguments.receiver args 1) [s, s, this] w =
          invoke r (Arguments.receiver args 1) [s, s, this] w) →
      (SetFunction.forEach).run eng invoke' target this args w =
        (SetFunction.forEach).run eng invoke target this args w) ∧
    (∀ (s : Script.Value) (v : Value) (w' : World), v.widened = v → s.TakenFor eng w v.widened →
      w.KeepsTargets w' →
      (∀ (items : List Value) (i : Nat), w'.list? target = some items.toArray →
        items[i]? = some v →
        (ListFunction.includes).run eng invoke steps target this [s] w' = .ok (.boolean true) w' ∧
        ∃ j ≤ i, (ListFunction.indexOf).run eng invoke steps target this [s] w' =
          .ok (.ofIndex j) w') ∧
      ∀ members : List Value, w'.set? target = some members → v ∈ members →
        (members.Pairwise fun a b => (a == b) = false) →
        (SetFunction.has).run eng invoke target this [s] w' = .ok (.boolean true) w' ∧
        ∃ w₁, (SetFunction.delete).run eng invoke target this [s] w' = .ok (.boolean true) w₁ ∧
          w₁.set? target = some (Members.erase members v) ∧
          (Members.erase members v).any (· == v) = false) ∧
    (eng.CodeWithin World.KeepsTargets → ∀ (events : List Event) (w' : World),
      w'.KeepsTargets (Event.runAll eng events w')) := by
  refine ⟨?_, ?_, ?_, ?_, ?_, fun hcode => Event.keepsTargets_runAll hcode⟩
  · intro items i v hlist hindex hi hheld hknown
    obtain ⟨s, w₁, hs, hadds, htaken⟩ := toScript_takenFor hopen hheld hknown
    exact ⟨s, w₁, (item_eq_toScript hlist hindex hi).trans hs, hadds.alike, htaken⟩
  · intro members kind hset
    obtain ⟨it, state, w₁, hnew, hiterates, halike⟩ := newIterator_iterates target kind w
    rw [iteratorItems_of_set? hset kind] at hiterates
    exact ⟨it, state, w₁, hnew, halike, hiterates⟩
  · intro state kind v rest hstate hheld hknown
    exact yields_member hopen hstate hheld hknown
  · intro members invoke' hset hheld hcall
    exact forEach_congr hopen hset hheld hcall
  · intro s v w' hsame htaken hw
    rw [hsame] at htaken
    exact ⟨fun items i hlist hi => finds_of_takenFor htaken hw hlist hi,
      fun members hset hmem hdistinct => erases_of_takenFor htaken hw hset hmem hdistinct⟩

/-- The world with one set and nothing else. -/
def World.ofMembers (members : List Value) : World :=
  { objects := ({} : Store .object Host.Object).alloc (.new Host.Library.set (.set members)) }

/-- A list includes the element it has handed out, and a set has the member that an iterator has
given, until it is told to remove it. -/
theorem taken_for_widened_integers :
    (∃ s w₁, (ListFunction.item).run (Engine.direct Config.standard) (fun _ _ _ => pure .null) 0
        onlyList .undefined [.integer 1] (World.ofItems [.null, .integer 7]) = .ok s w₁ ∧
      (ListFunction.includes).run (Engine.direct Config.standard) (fun _ _ _ => pure .null) 0
        onlyList .undefined [s] w₁ = .ok (.boolean true) w₁) ∧
    ∃ it state s w₁ w₂ w₃, Run.newIterator onlyList .values (World.ofMembers [.integer 7]) =
        .ok it w₁ ∧
      (Engine.direct Config.standard).Yields state s w₁ w₂ ∧
      (SetFunction.delete).run (Engine.direct Config.standard) (fun _ _ _ => pure .null) onlyList
        .undefined [s] w₂ = .ok (.boolean true) w₃ ∧ w₃.set? onlyList = some [] := by
  have h := taken_for_widened (Engine.direct Config.standard) (Engine.open_direct Config.standard)
    (fun _ _ _ => pure .null) 0 onlyList .undefined
  constructor
  · have hlist : (World.ofItems [.null, .integer 7]).list? onlyList =
        some [.null, .integer 7].toArray := rfl
    obtain ⟨s, w₁, hs, halike, htaken⟩ := (h [.integer 1] (World.ofItems [.null, .integer 7])).1
      _ 1 (.integer 7) hlist rfl rfl rfl nofun
    have hfound := ((h [] w₁).2.2.2.2.1 s (.integer 7) w₁ rfl htaken (.of_handlers_eq rfl)).1
      _ 1 ((halike.list? onlyList).trans hlist) rfl
    exact ⟨s, w₁, hs, hfound.1⟩
  · have hset : (World.ofMembers [.integer 7]).set? onlyList = some [.integer 7] := rfl
    obtain ⟨it, state, w₁, hit, halike₁, -, hstate⟩ :=
      (h [] (World.ofMembers [.integer 7])).2.1 _ .values hset
    obtain ⟨s, w₂, hs, -, halike₂, htaken⟩ :=
      (h [] w₁).2.2.1 state .values (.integer 7) [] hstate rfl nofun
    have hset₂ := ((halike₁.trans halike₂).set? onlyList).trans hset
    obtain ⟨-, w₃, hdelete, hset₃, -⟩ := ((h [] w₂).2.2.2.2.1 s (.integer 7) w₂ rfl htaken
      (.of_handlers_eq rfl)).2 _ hset₂ List.mem_cons_self (List.pairwise_singleton _ _)
    exact ⟨it, state, s, w₁, w₂, w₃, hit, hs, hdelete, hset₃⟩

/-- A list need not include the element it has handed out: a byte comes back as an integer. -/
theorem not_includes_item : ¬ ∀ (items : List Value) (i : Nat), i < items.length →
    ∃ s w₁ w₂, (ListFunction.item).run (Engine.direct Config.standard) (fun _ _ _ => pure .null) 0
        onlyList .undefined [.ofIndex i] (World.ofItems items) = .ok s w₁ ∧
      (ListFunction.includes).run (Engine.direct Config.standard) (fun _ _ _ => pure .null) 0
        onlyList .undefined [s] w₁ = .ok (.boolean true) w₂ := by
  intro h
  obtain ⟨s, w₁, w₂, hs, hincludes⟩ := h [.byte 1] 0 Nat.one_pos
  have hitem : (ListFunction.item).run (Engine.direct Config.standard) (fun _ _ _ => pure .null) 0
      onlyList .undefined [.ofIndex 0] (World.ofItems [.byte 1]) =
        .ok (.integer 1) (World.ofItems [.byte 1]) := rfl
  have hfalse : (ListFunction.includes).run (Engine.direct Config.standard)
      (fun _ _ _ => pure .null) 0 onlyList .undefined [.integer 1] (World.ofItems [.byte 1]) =
        .ok (.boolean false) (World.ofItems [.byte 1]) := rfl
  rw [hitem] at hs
  cases hs
  rw [hfalse] at hincludes
  cases hincludes

end Membrane
