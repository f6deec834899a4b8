import Membrane.Proofs.Readers
import Membrane.Proofs.WordArithmetic

/-!
# One item by its index

Two functions take the index of one item, counted from the front or, if it is negative, from the
end: one reads the item, the other gives a copy of the list with the item replaced. They find the
same place for an index and fail for the same indices, though in different ways: there is nothing to
be read, and it is an error to replace it, which names the index as it was given. Neither changes
the list.

## Main definitions

* `Word.itemIndex?`: the place of an index in steps of machine words.
* `World.SameByTarget`: script values that are the same, proxies by what they answer for.
* `World.ReadsAt`, `World.ReplacesAt`: that an item is read and replaced at a place.

## Main results

* `Sequence.itemIndex?_eq_none_iff`, `Sequence.itemIndex?_eq_some_iff`: the place of an index.
* `Word.itemIndex?_eq_some`: all steps succeed.
* `one_place_for_an_index`: what the two functions make of an index.
-/

namespace Membrane

open Host (Value)
open Prototype (ListFunction)

/-! ### The place of an index -/

section Places

variable {i : Int32} {length : Nat}

/-- An index beyond either end has no place. -/
theorem Sequence.itemIndex?_eq_none_iff :
    itemIndex? i length = none ↔ i.toInt < -length ∨ length ≤ i.toInt := by
  unfold itemIndex?
  rw [ite_eq_right_iff]
  simp only [reduceCtorEq, imp_false]
  split <;> omega

/-- Any other index has a place, which is found from the front or from the end. -/
theorem Sequence.itemIndex?_eq_some_iff {r : Nat} :
    itemIndex? i length = some r ↔
      r < length ∧ (r : Int) = if i.toInt < 0 then i.toInt + length else i.toInt := by
  unfold itemIndex?
  generalize (if i.toInt < 0 then i.toInt + length else i.toInt) = n
  dsimp only
  split
  · next hrange =>
    rw [Option.some_inj]
    omega
  · next hrange =>
    refine iff_of_false nofun ?_
    omega

/-- An index counted from the front, as a signed word. -/
def Word.fromFront? (i : Int32) (length : Int) : Option Int :=
  if i.toInt < 0 then signed? (i.toInt + length) else some i.toInt

/-- The place of an index, found in machine words. -/
def Word.itemIndex? (i : Int32) (length : Nat) : Option (Option Nat) := do
  let length ← signed? length
  let index ← fromFront? i length
  if index < 0 ∨ length ≤ index then return none
  else
    let place ← unsigned? index
    return some place

/-- Every step in machine words succeeds, for all indices. -/
theorem Word.itemIndex?_eq_some (h : length < 9223372036854775808) :
    Word.itemIndex? i length = some (Sequence.itemIndex? i length) := by
  have hlow := i.le_toInt
  have hhigh := i.toInt_lt
  have hfront : fromFront? i length =
      some (if i.toInt < 0 then i.toInt + length else i.toInt) := by
    unfold fromFront?
    split
    · exact signed?_eq_some (by omega) (by omega)
    · rfl
  unfold Word.itemIndex? Sequence.itemIndex?
  rw [bind_of_some (signed?_eq_some (by omega) (by omega)), bind_of_some hfront]
  generalize (if i.toInt < 0 then i.toInt + length else i.toInt) = n
  dsimp only
  split
  · rw [if_neg (by omega)]
    rfl
  · rw [if_pos (by omega), bind_of_some (unsigned?_eq_some (by omega) (by omega))]
    rfl

end Places

/-! ### Runs -/

section Runs

variable {eng : Engine} {invoke : Invoke} {steps : Nat} {target v : Value} {this : Script.Value}
  {args : List Script.Value} {items : List Value} {w : World}

/-- There is nothing to be read where an index has no place. -/
theorem item_eq_undefined (hlist : w.list? target = some items.toArray)
    (hnone : Sequence.itemIndex? (Arguments.int args 0 0) items.length = none) :
    OnList.item eng target args w = .ok .undefined w := by
  unfold OnList.item
  rw [Run.bind_of_ok (listItems_eq_ok_of_list? hlist)]
  simp only [List.size_toArray, hnone, Option.bind_none]
  rfl

/-- There is nothing to be replaced either. -/
theorem withItem_eq_error (hlist : w.list? target = some items.toArray)
    (hnone : Sequence.itemIndex? (Arguments.int args 0 0) items.length = none) :
    OnList.withItem eng target args w =
      .error (.fault (.invalidIndex (Arguments.int args 0 0).toInt)) w := by
  unfold OnList.withItem
  rw [Run.bind_of_ok (listValues_eq_ok hlist)]
  simp only [hnone]
  rfl

/-- The item at the place of an index is replaced in an array of all items. -/
theorem withItem_eq_toScriptAll {r : Nat} (hlist : w.list? target = some items.toArray)
    (hsome : Sequence.itemIndex? (Arguments.int args 0 0) items.length = some r) :
    OnList.withItem eng target args w =
      (do
        let values ← eng.toScriptAll items
        Run.newScriptArray (values.set r (Arguments.get args 1))) w := by
  unfold OnList.withItem
  rw [Run.bind_of_ok (listValues_eq_ok hlist)]
  simp only [hsome]

end Runs

/-! ### What is given -/

/-- Script values that are the same, where proxies count by what they answer for. -/
inductive World.SameByTarget (w : World) : Script.Value → Script.Value → Prop
  /-- A value and itself. -/
  | same (s : Script.Value) : w.SameByTarget s s
  /-- Two proxies that answer for one value. -/
  | proxies {r r' : Ref .handler} {h h' : Handler} (hr : w.handlers.get? r = some h)
      (hr' : w.handlers.get? r' = some h') (htarget : h.target = h'.target) :
      w.SameByTarget (.proxy r) (.proxy r')

/-- A host value is shown to scripts in one way only, up to the proxies for it. -/
theorem World.Shows.sameByTarget {w : World} {v : Value} {s s' : Script.Value} (h : w.Shows v s)
    (h' : w.Shows v s') : w.SameByTarget s s' := by
  cases h with
  | primitive hs =>
    cases h' with
    | primitive hs' =>
      cases hs.symm.trans hs'
      exact .same s
    | held => cases hs
    | object => cases hs
  | held =>
    cases h' with
    | primitive hs' => cases hs'
    | held => exact .same s
  | object hr htarget =>
    cases h' with
    | primitive hs' => cases hs'
    | object hr' htarget' => exact .proxies hr hr' (htarget.trans htarget'.symm)

/-- Of all host values only a held undefined is shown as undefined. -/
theorem World.Shows.eq_undefined_iff {w : World} {v : Value} {s : Script.Value} (h : w.Shows v s) :
    s = .undefined ↔ v = .script .undefined := by
  cases h with
  | primitive hs =>
    refine iff_of_false ?_ ?_
    · rintro rfl
      cases v <;> cases hs
    · rintro rfl
      cases hs
  | held => exact ⟨congrArg Value.script, Value.script.inj⟩
  | object => exact iff_of_false nofun nofun

/-! ### Both functions -/

section Both

variable (eng : Engine) (invoke : Invoke) (steps : Nat) (target : Value) (this : Script.Value)
  (args : List Script.Value)

/-- In a world, an index gives an item to be read: the function gives what a script sees of the
item, which is undefined only if the item is a held undefined. It gives the same for every other
index of the place, now and when it is asked for that afterwards. -/
def World.ReadsAt (w : World) (length r : Nat) (v : Value) : Prop :=
  ∃ s w₁, (ListFunction.item).run eng invoke steps target this args w = .ok s w₁ ∧
    w₁.Shows v s ∧ (s = .undefined ↔ v = .script .undefined) ∧ w₁.objects = w.objects ∧
    ∀ args', (Arguments.int args' 0 0).toInt = r ∨
        (Arguments.int args' 0 0).toInt = (r : Int) - length →
      (ListFunction.item).run eng invoke steps target this args' w = .ok s w₁ ∧
      ∃ s' w₂, (ListFunction.item).run eng invoke steps target this args' w₁ = .ok s' w₂ ∧
        w₂.SameByTarget s s' ∧ w₂.objects = w.objects

/-- In a world, an index gives the place of an item to be replaced: the function gives the array for
serialisation, except that its second argument stands at the place as it is. -/
def World.ReplacesAt (w : World) (items : List Value) (r : Nat) : Prop :=
  ∃ a ss w₁ w₂, (ListFunction.toJSON).run eng invoke steps target this [] w = .ok (.array a) w₁ ∧
    w₁.arrays.get? a = some ss ∧ List.Forall₂ w₁.Shows items ss ∧
    (ListFunction.withItem).run eng invoke steps target this args w = .ok (.array a) w₂ ∧
    w₂.arrays.get? a = some (ss.set r (args[1]?.getD .undefined)) ∧
    w₂.handlers = w₁.handlers ∧ w₁.objects = w.objects ∧ w₂.objects = w.objects

variable {eng target args} {items : List Value} {v : Value} {w : World} {r : Nat}

theorem World.readsAt (hopen : eng.Open) (hlist : w.list? target = some items.toArray)
    (hknown : w.Knows v) (hv : items[r]? = some v)
    (hplace : Sequence.itemIndex? (Arguments.int args 0 0) items.length = some r) :
    w.ReadsAt eng invoke steps target this args items.length r v := by
  obtain ⟨s, w₁, hs⟩ := Engine.toScript_eq_ok hopen hknown
  have hadds : w.AddsHandlers w₁ := (eng.within_toScript v).rel_of_ok hs
  have hobjects := hadds.alike.objects
  have hshows : w₁.Shows v s := Engine.shows_of_toScript hs
  refine ⟨s, w₁, (item_eq_toScript hlist hplace hv).trans hs, hshows, hshows.eq_undefined_iff,
    hobjects, fun args' hargs' => ?_⟩
  have hplace' : Sequence.itemIndex? (Arguments.int args' 0 0) items.length = some r := by
    have hr := (Sequence.itemIndex?_eq_some_iff.1 hplace).1
    refine Sequence.itemIndex?_eq_some_iff.2 ⟨hr, ?_⟩
    split <;> omega
  -- Asked for it again, the function may make another proxy for the same object.
  obtain ⟨s', w₂, hs'⟩ := Engine.toScript_eq_ok hopen (hknown.congr hobjects)
  have hadds' : w₁.AddsHandlers w₂ := (eng.within_toScript v).rel_of_ok hs'
  have hlist' : w₁.list? target = some items.toArray := (World.list?_congr hobjects).trans hlist
  exact ⟨(item_eq_toScript hlist hplace' hv).trans hs, s', w₂,
    (item_eq_toScript hlist' hplace' hv).trans hs',
    (hshows.later hadds'.keepsTargets).sameByTarget (Engine.shows_of_toScript hs'),
    hadds'.alike.objects.trans hobjects⟩

theorem World.replacesAt (hlist : w.list? target = some items.toArray)
    (hcross : ∀ v ∈ items, w.Crosses eng v)
    (hplace : Sequence.itemIndex? (Arguments.int args 0 0) items.length = some r) :
    w.ReplacesAt eng invoke steps target this args items r := by
  -- Both functions carry all items to the script, and differ in the array they make of them.
  obtain ⟨ss, w₁, hss, hshows, hadds⟩ := Engine.toScriptAll_eq_ok hcross
  have hcopy : eng.toScriptArray items w = Run.newScriptArray ss w₁ := Run.bind_of_ok hss
  refine ⟨w₁.arrays.next, ss, _, _, (Run.bind_of_ok (listValues_eq_ok hlist)).trans hcopy,
    Store.get?_alloc_next _ _, hshows.imp fun v s hs => hs.later (.of_handlers_eq rfl),
    (withItem_eq_toScriptAll hlist hplace).trans (Run.bind_of_ok hss),
    Store.get?_alloc_next _ _, rfl, hadds.alike.objects, hadds.alike.objects⟩

end Both

/-- A list has no more items than there are indices of 32 bits, and the engine lets them cross,
whose objects exist. Then reading an item by its index gives undefined, and replacing it raises a
range error that names the index, if and only if the index is less than the negated number of items
or not less than that number; for no other index does replacing raise this error. Any other index
has a place, which is the index itself or, if it is negative, its sum with the number of items. The
item there is what is read, by this index and by every other index of the place. What replacing
gives is the array for serialisation, where the value for the item, or undefined if there is none,
stands at the place and nothing else differs. The list stays as it is. For every list whose length
fits in a signed word, all steps that find the place succeed in machine words. -/
theorem one_place_for_an_index {eng : Engine} (hopen : eng.Open) (invoke : Invoke) (steps : Nat)
    (target : Value) (this : Script.Value) (args : List Script.Value) {items : List Value}
    {w : World} (hlist : w.list? target = some items.toArray) (hsize : items.length ≤ 2147483647)
    (hknown : ∀ v ∈ items, w.Knows v) {i : Int} (hi : (Arguments.int args 0 0).toInt = i) :
    ((ListFunction.item).run eng invoke steps target this args w = .ok .undefined w ∧
        (ListFunction.withItem).run eng invoke steps target this args w =
          .error (.fault (.invalidIndex i)) w ↔ i < -items.length ∨ items.length ≤ i) ∧
      ((ListFunction.withItem).run eng invoke steps target this args w =
          .error (.fault (.invalidIndex i)) w ↔ i < -items.length ∨ items.length ≤ i) ∧
      (Fault.invalidIndex i).constructorName = "RangeError" ∧
      (Fault.invalidIndex i).message = "Invalid index : " ++ toString i ∧
      (¬(i < -items.length ∨ items.length ≤ i) →
        ∃ (r : Nat) (v : Value), (r : Int) = (if i < 0 then i + items.length else i) ∧
          items[r]? = some v ∧ w.ReadsAt eng invoke steps target this args items.length r v ∧
          w.ReplacesAt eng invoke steps target this args items r) ∧
      Word.itemIndex? (Arguments.int args 0 0) items.length =
        some (if i < -items.length ∨ items.length ≤ i then none
          else some (if i < 0 then i + items.length else i).toNat) := by
  subst hi
  have hinside (hnot : ¬((Arguments.int args 0 0).toInt < -items.length ∨
      items.length ≤ (Arguments.int args 0 0).toInt)) :
      ∃ (r : Nat) (v : Value), (r : Int) = (if (Arguments.int args 0 0).toInt < 0 then
          (Arguments.int args 0 0).toInt + items.length else (Arguments.int args 0 0).toInt) ∧
        items[r]? = some v ∧ w.ReadsAt eng invoke steps target this args items.length r v ∧
        w.ReplacesAt eng invoke steps target this args items r := by
    obtain ⟨r, hr⟩ := Option.ne_none_iff_exists'.1 (mt Sequence.itemIndex?_eq_none_iff.1 hnot)
    obtain ⟨hlt, hplace⟩ := Sequence.itemIndex?_eq_some_iff.1 hr
    have hv : items[r]? = some items[r] := List.getElem?_eq_getElem hlt
    exact ⟨r, items[r], hplace, hv,
      World.readsAt invoke steps this hopen hlist (hknown _ (List.getElem_mem hlt)) hv hr,
      World.replacesAt invoke steps this hlist
        (fun v hv => ⟨fun w' => hopen.toScript w' v, hknown v hv⟩) hr⟩
  have hraises : (ListFunction.withItem).run eng invoke steps target this args w =
      .error (.fault (.invalidIndex (Arguments.int args 0 0).toInt)) w ↔
        (Arguments.int args 0 0).toInt < -items.length ∨
          items.length ≤ (Arguments.int args 0 0).toInt := by
    refine ⟨fun h => ?_, fun hout =>
      withItem_eq_error hlist (Sequence.itemIndex?_eq_none_iff.2 hout)⟩
    by_contra hnot
    obtain ⟨r, v, -, -, -, a, ss, w₁, w₂, -, -, -, hreplaced, -⟩ := hinside hnot
    cases hreplaced.symm.trans h
  refine ⟨⟨fun h => hraises.1 h.2, fun hout => ⟨?_, hraises.2 hout⟩⟩, hraises, rfl, rfl, hinside,
    ?_⟩
  · exact item_eq_undefined hlist (Sequence.itemIndex?_eq_none_iff.2 hout)
  · rw [Word.itemIndex?_eq_some (by omega)]
    refine congrArg some ?_
    split
    · next hout => exact Sequence.itemIndex?_eq_none_iff.2 hout
    · next hnot =>
      refine Sequence.itemIndex?_eq_some_iff.2 ?_
      split <;> omega

/-- The items of a list that holds a text and itself. -/
def textAndItself : List Value := [.string "a", onlyList]

/-- The last item is read by minus one, and replaced by a symbol. There is nothing at two, whether
it is to be read or to be replaced. -/
theorem one_place_for_an_index_fromEnd :
    (World.ofItems textAndItself).ReadsAt (Engine.direct Config.standard) (fun _ _ _ => pure .null)
        0 onlyList .undefined [.integer (-1), .symbol .iterator] 2 1 onlyList ∧
      (World.ofItems textAndItself).ReplacesAt (Engine.direct Config.standard)
        (fun _ _ _ => pure .null) 0 onlyList .undefined [.integer (-1), .symbol .iterator]
        textAndItself 1 ∧
      (ListFunction.item).run (Engine.direct Config.standard) (fun _ _ _ => pure .null) 0 onlyList
          .undefined [.integer 2] (World.ofItems textAndItself) =
        .ok .undefined (World.ofItems textAndItself) ∧
      (ListFunction.withItem).run (Engine.direct Config.standard) (fun _ _ _ => pure .null) 0
          onlyList .undefined [.integer 2] (World.ofItems textAndItself) =
        .error (.fault (.invalidIndex 2)) (World.ofItems textAndItself) := by
  have hknown : ∀ v ∈ textAndItself, (World.ofItems textAndItself).Knows v := by
    rintro v hv r rfl
    obtain heq | heq := List.mem_pair.1 hv
    · cases heq
    · cases heq
      exact ⟨_, rfl⟩
  have hlist : (World.ofItems textAndItself).list? onlyList = some textAndItself.toArray := rfl
  have hplaces (args : List Script.Value) {i : Int} (hi : (Arguments.int args 0 0).toInt = i) :=
    one_place_for_an_index (Engine.open_direct Config.standard) (fun _ _ _ => pure .null) 0
      onlyList .undefined args hlist (by decide) hknown hi
  obtain ⟨-, -, -, -, hlast, -⟩ := hplaces [.integer (-1), .symbol .iterator] (i := -1) rfl
  obtain ⟨r, v, hr, hv, hreads, hreplaces⟩ := hlast (by decide)
  obtain rfl : r = 1 := Int.ofNat_inj.1 hr
  cases hv
  exact ⟨hreads, hreplaces, (hplaces [.integer 2] (i := 2) rfl).1.2 (.inr (by decide))⟩

end Membrane
