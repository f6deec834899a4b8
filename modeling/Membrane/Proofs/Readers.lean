import Membrane.Proofs.HeldSequence
import Membrane.Proofs.IndexKeys
import Membrane.Proofs.Snapshots
import Membrane.Proofs.Visiting

/-!
# All ways to read a list

The items of a list can be read as properties by their indices, by a function that takes an index,
from arrays of all of them, from iterators and from the calls of a callback. Each of these goes its
own way: by the digits of a key, from either end, between two indices, from a snapshot, or step by
step. All of them give what the items are carried to the script as. Arrays are read in fewer ways,
and in the same ones as far as they go.

## Main definitions

* `World.Gives`, `World.GivesArray`, `Engine.GivesInTurn`: computations that give what values are
  carried to the script as, one, in an array or by an iterator.
* `World.ShowsItems`: what properties and iterators show of a list or an array.
* `World.ShowsItemsByFunctions`: what functions show of a list.

## Main results

* `readers_agree`: all of them show the same items.
-/

namespace Membrane

open Host (Value)
open Prototype (ListFunction)

/-! ### What is given -/

/-- A computation gives what a value is carried to the script as. -/
def World.Gives (w : World) (x : Run Script.Value) (v : Value) : Prop :=
  ∃ s w', x w = .ok s w' ∧ w'.Shows v s

/-- A computation gives an array of what values are carried to the script as. -/
def World.GivesArray (w : World) (x : Run Script.Value) (vs : List Value) : Prop :=
  ∃ a ss w', x w = .ok (.array a) w' ∧ w'.arrays.get? a = some ss ∧ List.Forall₂ w'.Shows vs ss

/-- A computation gives an iterator, whose steps report items one after the other, and then that it
is done, whatever happens between them. -/
def Engine.GivesInTurn (eng : Engine) (w : World) (x : Run Script.Value)
    (items : List IteratorItem) : Prop :=
  ∃ it state w₁, x w = .ok it w₁ ∧ w₁.Iterates it state items ∧
    ∀ results w', Interleaving eng w₁ results w' →
      ∀ (i : Nat) (outcome : Outcome Script.Value), (resultsOf state results)[i]? = some outcome →
        Outcome.Reports outcome items[i]?

section Giving

variable {eng : Engine} {target v : Value} {vs : List Value} {w : World}

theorem World.gives_toScript (hcross : w.Crosses eng v) : w.Gives (eng.toScript v) v := by
  obtain ⟨s, w', hs⟩ := Engine.toScript_eq_ok_of_crosses (hcross.passes w) hcross.known
  exact ⟨s, w', hs, Engine.shows_of_toScript hs⟩

/-- What a computation gives depends on its outcome. -/
theorem World.Gives.congr {x y : Run Script.Value} (hy : w.Gives y v) (h : x w = y w) :
    w.Gives x v := by
  unfold World.Gives
  rwa [h]

theorem World.GivesArray.congr {x y : Run Script.Value} (hy : w.GivesArray y vs) (h : x w = y w) :
    w.GivesArray x vs := by
  unfold World.GivesArray
  rwa [h]

theorem World.givesArray_toScriptArray (hcross : ∀ v ∈ vs, w.Crosses eng v) :
    w.GivesArray (eng.toScriptArray vs) vs := by
  obtain ⟨a, ss, w', hrun, ha, hshows, -⟩ := Engine.toScriptArray_eq_ok hcross
  exact ⟨a, ss, w', hrun, ha, hshows⟩

/-- A new iterator gives the items of its target. -/
theorem Engine.givesInTurn_newIterator {kind : IterationKind}
    (hcross : ∀ item ∈ w.iteratorItems target kind, w.CrossesItem eng item) :
    eng.GivesInTurn w (Run.newIterator target kind) (w.iteratorItems target kind) := by
  obtain ⟨it, state, w₁, hrun, hiterates, halike⟩ := newIterator_iterates target kind w
  refine ⟨it, state, w₁, hrun, hiterates, fun results w' hresults => ?_⟩
  exact hresults.reports hiterates.2 fun item hitem v hv =>
    ⟨(hcross item hitem v hv).passes, (hcross item hitem v hv).known.congr halike.objects⟩

end Giving

/-! ### What is shown -/

/-- What properties and iterators show of the items of a list or an array. -/
structure World.ShowsItems (w : World) (eng : Engine) (h : Handler) (items : List Value) :
    Prop where
  /-- The keys are the texts of the indices. -/
  keys : ∀ r, w.handlers.get? r = some h →
    Run.ownKeys r w = .ok ((List.range items.length).map fun i => toString i) w
  /-- Each of the keys is there. -/
  has : ∀ i < items.length, eng.hasProperty h (.string (toString i)) w = .ok true w
  /-- As a property it gives the item. -/
  get : ∀ (i : Nat) v, items[i]? = some v → w.Gives (eng.getProperty h (.string (toString i))) v
  /-- Digits that denote a number beyond the indices give no element. -/
  beyond : ∀ name, IsDigitString name → items.length ≤ Numeral.digitsValue name.toList →
    eng.getElement h (.string name) w = .ok none w
  /-- The iterator symbol gives a function that makes iterators over the items. -/
  iterate : ∃ g w₁, eng.getProperty h (.symbol .iterator) w = .ok (.function g) w₁ ∧
    w₁.functions.get? g = some (.iterate h.target .values) ∧
    ∀ invoke steps this args, eng.GivesInTurn w₁
      (eng.perform invoke steps (.iterate h.target .values) this args) (items.map .value)

/-- What functions show of the items of a list. -/
structure World.ShowsItemsByFunctions (w : World) (eng : Engine) (target : Value)
    (items : List Value) : Prop where
  /-- An index gives the item. -/
  item : ∀ invoke steps this args (i : Nat) v, (Arguments.int args 0 0).toInt = i →
    items[i]? = some v → w.Gives ((ListFunction.item).run eng invoke steps target this args) v
  /-- The form for serialisation has all items. -/
  toJSON : ∀ invoke steps this args,
    w.GivesArray ((ListFunction.toJSON).run eng invoke steps target this args) items
  /-- A slice without bounds has all items. -/
  slice : ∀ invoke steps this,
    w.GivesArray ((ListFunction.slice).run eng invoke steps target this []) items
  /-- The values in turn are the items. -/
  values : ∀ invoke steps this args, eng.GivesInTurn w
    ((ListFunction.values).run eng invoke steps target this args) (items.map .value)
  /-- The entries in turn are pairs of an index and the item there. -/
  entries : ∀ invoke steps this args, eng.GivesInTurn w
    ((ListFunction.entries).run eng invoke steps target this args)
    (items.zipIdx.map fun (v, i) => .pair (indexKey i) v)
  /-- A callback that leaves the list alone is called on the items in turn. -/
  forEach : ∀ invoke steps this args (I : World → Prop), I w →
    (Arguments.get args 0).isFunction = true →
    CallsWithin I World.KeepsThings invoke (Arguments.get args 0) →
    CallsWithin I (World.KeepsList target) invoke (Arguments.get args 0) →
    items.length < steps →
    ((ListFunction.forEach).run eng invoke steps target this args).Accounted invoke w
      (VisitsInTurn (Walk.given this args).callOn items 0)

section Readers

variable {eng : Engine} {h : Handler} {target v : Value} {items : List Value} {w : World}

/-- A list or an array holds items. -/
def World.HoldsItems (w : World) (target : Value) (items : List Value) : Prop :=
  w.data? target = some (.list items.toArray) ∨ w.data? target = some (.array items.toArray)

theorem ownKeys_of_holdsItems (hitems : w.HoldsItems h.target items) {r : Ref .handler}
    (hr : w.handlers.get? r = some h) :
    Run.ownKeys r w = .ok ((List.range items.length).map fun i => toString i) w := by
  unfold Run.ownKeys
  rw [Run.get_bind, hr, Option.bind_some]
  obtain hdata | hdata := hitems
  · rw [hdata]
    rfl
  · rw [hdata]
    rfl

theorem element?_of_holdsItems (hitems : w.HoldsItems target items) (name : String) :
    w.element? target name = (indexKey? name).bind (items[·]?) := by
  unfold World.element?
  obtain hdata | hdata := hitems <;> simp [hdata]

/-- Lists and arrays are iterated by their items. -/
theorem iterates_of_holdsItems (hitems : w.HoldsItems target items) :
    w.isIterable target = true ∧ w.defaultKind target = .values ∧
      ∀ kind, w.iteratorItems target kind = sequenceItems kind items := by
  unfold World.isIterable World.defaultKind World.iteratorItems
  obtain hdata | hdata := hitems <;> simp [hdata]

/-- What is iterated in a sequence are its items and their indices. -/
theorem mem_of_mem_sequenceItems {kind : IterationKind} {item : IteratorItem}
    (hitem : item ∈ sequenceItems kind items) (hv : v ∈ item.values) :
    v ∈ items ∨ ∃ i, v = indexKey i := by
  cases kind with
  | keys =>
    obtain ⟨i, -, rfl⟩ := List.mem_map.1 hitem
    exact .inr ⟨i, List.mem_singleton.1 hv⟩
  | values =>
    obtain ⟨u, hu, rfl⟩ := List.mem_map.1 hitem
    rw [List.mem_singleton.1 hv]
    exact .inl hu
  | entries =>
    obtain ⟨⟨u, i⟩, hu, rfl⟩ := List.mem_map.1 hitem
    obtain rfl | hv := List.mem_cons.1 hv
    · exact .inr ⟨i, rfl⟩
    · rw [List.mem_singleton.1 hv]
      exact .inl (List.fst_mem_of_mem_zipIdx hu)

/-- An iterator over a list or an array gives its items in turn. -/
theorem givesInTurn_sequenceItems (hopen : eng.Open) (hitems : w.HoldsItems target items)
    (hknown : ∀ v ∈ items, w.Knows v) (kind : IterationKind) :
    eng.GivesInTurn w (Run.newIterator target kind) (sequenceItems kind items) := by
  obtain ⟨-, -, hiterates⟩ := iterates_of_holdsItems hitems
  rw [← hiterates kind]
  refine Engine.givesInTurn_newIterator fun item hitem v hv => ⟨fun w' => hopen.toScript w' v, ?_⟩
  rw [hiterates kind] at hitem
  obtain hmem | ⟨i, rfl⟩ := mem_of_mem_sequenceItems hitem hv
  · exact hknown v hmem
  · exact nofun

theorem World.HoldsItems.congr {w' : World} (hitems : w.HoldsItems target items)
    (hobjects : w'.objects = w.objects) : w'.HoldsItems target items := by
  unfold World.HoldsItems
  rwa [World.data?_congr hobjects]

theorem hasIndex_of_holdsItems (hitems : w.HoldsItems target items) {i : Nat}
    (hi : i < items.length) : w.hasIndex target (some i) = true := by
  unfold World.hasIndex
  obtain hdata | hdata := hitems <;> simp [hdata, hi]

/-- An index is an index key. -/
theorem indexKey?_of_lt (hsize : items.length ≤ 2147483647) {i : Nat} (hi : i < items.length) :
    indexKey? (toString i) = some i :=
  indexKey?_toString (by omega)

/-- Without bounds all items are in the slice. -/
theorem slice_nil (hsize : items.length ≤ 2147483647) : Sequence.slice items [] = items := by
  have hstart : resolveIndex (Arguments.int [] 0 0) items.length = 0 := by
    simp [resolveIndex, Arguments.int]
  have hstop : resolveIndex (Arguments.int [] 1 (lengthInt32 items.length)) items.length =
      items.length := by
    have hlength : (lengthInt32 items.length).toInt = items.length := clampInt32_ofNat hsize
    unfold resolveIndex Arguments.int
    simp only [List.getElem?_nil, hlength]
    rw [if_neg (by omega)]
    omega
  unfold Sequence.slice
  simp only [hstart, hstop]
  simp [Sequence.between]

/-- An index that is not negative is an index from the front. -/
theorem itemIndex?_of_toInt {i : Nat} {n : Int32} (hn : n.toInt = i) (hi : i < items.length) :
    Sequence.itemIndex? n items.length = some i := by
  unfold Sequence.itemIndex?
  simp [hn]
  omega

/-- What properties and iterators show of a list or an array are its items. -/
theorem showsItems (hopen : eng.Open) (hitems : w.HoldsItems h.target items)
    (hsize : items.length ≤ 2147483647) (hknown : ∀ v ∈ items, w.Knows v) :
    w.ShowsItems eng h items where
  keys r hr := ownKeys_of_holdsItems hitems hr
  has i hi := by
    have hvalue : eng.toHost (.string (toString i)) w = .ok (.string (toString i)) w :=
      Engine.toHost_eq_carryToHost (hopen.toHost w _)
    have hindex : w.hasIndex h.target
        ((Script.Value.string (toString i)).propertyName?.bind indexKey?) = true := by
      rw [Script.Value.propertyName?, Option.bind_some, indexKey?_of_lt hsize hi]
      exact hasIndex_of_holdsItems hitems hi
    rw [Engine.hasProperty_eq_ok hvalue, hindex]
    simp
  get i v hv := by
    obtain ⟨hi, -⟩ := List.getElem?_eq_some_iff.1 hv
    have hkey := indexKey?_of_lt hsize hi
    have helement : w.element? h.target (toString i) = some v := by
      rw [element?_of_holdsItems hitems, hkey]
      exact hv
    have hlength : toString i ≠ "length" := fun heq => by
      rw [heq] at hkey
      cases hkey
    exact (World.gives_toScript ⟨fun w' => hopen.toScript w' v,
      hknown v (List.mem_of_getElem? hv)⟩).congr
        (Engine.getProperty_of_element? (fun heq => absurd heq hlength) helement)
  beyond name hname hbeyond := by
    refine (eng.answersIff_getElement h _ w).passes ?_
    rintro ⟨name', hname', hshows | ⟨hlength, -⟩⟩
    · cases hname'
      rw [element?_of_holdsItems hitems, indexKey?_of_isDigitString hname] at hshows
      split_ifs at hshows
      · rw [Option.bind_some, List.getElem?_eq_none hbeyond] at hshows
        cases hshows
      · cases hshows
    · cases hname'
      subst hlength
      exact absurd (hname.2 'l' (by decide)) (by decide)
  iterate := by
    obtain ⟨hiterable, hkind, -⟩ := iterates_of_holdsItems hitems
    obtain ⟨g, w₁, hget, hg, hobjects⟩ := eng.getProperty_iterator h hiterable
    rw [hkind] at hg
    exact ⟨g, w₁, hget, hg, fun invoke steps this args =>
      givesInTurn_sequenceItems hopen (hitems.congr hobjects)
        (fun v hv => (hknown v hv).congr hobjects) .values⟩

/-- What functions show of a list are its items. -/
theorem showsItemsByFunctions (hopen : eng.Open) (hlist : w.list? target = some items.toArray)
    (hsize : items.length ≤ 2147483647) (hknown : ∀ v ∈ items, w.Knows v) :
    w.ShowsItemsByFunctions eng target items := by
  have hcross : ∀ v ∈ items, w.Crosses eng v :=
    fun v hv => ⟨fun w' => hopen.toScript w' v, hknown v hv⟩
  have hitems : w.HoldsItems target items := .inl (World.list?_eq_some_iff.1 hlist)
  have hall : w.GivesArray (eng.toScriptArray items) items := World.givesArray_toScriptArray hcross
  refine ⟨fun invoke steps this args i v hi hv => ?_, fun invoke steps this args => hall.congr ?_,
    fun invoke steps this => hall.congr ?_,
    fun invoke steps this args => givesInTurn_sequenceItems hopen hitems hknown .values,
    fun invoke steps this args => givesInTurn_sequenceItems hopen hitems hknown .entries,
    fun invoke steps this args I hw hcallback hthings hkeeps hsteps =>
      visitsInTurn_list hthings hcallback hw hcross hkeeps hsteps hlist⟩
  · obtain ⟨hlt, -⟩ := List.getElem?_eq_some_iff.1 hv
    exact (World.gives_toScript (hcross v (List.mem_of_getElem? hv))).congr
      (item_eq_toScript hlist (itemIndex?_of_toInt hi hlt) hv)
  · exact Run.bind_of_ok (listValues_eq_ok hlist)
  · refine (Run.bind_of_ok (listValues_eq_ok hlist)).trans ?_
    rw [slice_nil hsize]

/-- All ways to read a list agree, as long as it has no more items than indices of 32 bits go and
the engine lets its items cross, whose objects exist. The keys are the texts of the indices. Each of
them is there and gives as a property what the item is carried to the script as. The same is given
by the function that takes an index, is in the arrays for serialisation and of a slice without
bounds, is reported by the steps of an iterator over the values, and as second of a pair over the
entries, and is what a callback is called on that leaves the list alone in the worlds it is called
in. Digits that denote a number beyond the indices give no element. Arrays have the same keys,
properties and iterators. -/
theorem readers_agree {eng : Engine} (hopen : eng.Open) {h : Handler} {items : List Value}
    {w : World} (hitems : w.HoldsItems h.target items) (hsize : items.length ≤ 2147483647)
    (hknown : ∀ v ∈ items, w.Knows v) :
    w.ShowsItems eng h items ∧
      (w.list? h.target = some items.toArray → w.ShowsItemsByFunctions eng h.target items) :=
  ⟨showsItems hopen hitems hsize hknown,
    fun hlist => showsItemsByFunctions hopen hlist hsize hknown⟩

/-- A list of a text and null, whose second item is null in whichever way it is read. -/
theorem readers_agree_null :
    (World.ofItems [.string "a", .null]).Gives
        ((Engine.direct Config.standard).getProperty (onlyListHandler Config.standard)
          (.string "1")) .null ∧
      (World.ofItems [.string "a", .null]).Gives
        ((ListFunction.item).run (Engine.direct Config.standard) (fun _ _ _ => pure .null) 0
          onlyList .undefined [.integer 1]) .null ∧
      (Engine.direct Config.standard).getElement (onlyListHandler Config.standard) (.string "002")
        (World.ofItems [.string "a", .null]) = .ok none (World.ofItems [.string "a", .null]) := by
  have hitems : (World.ofItems [.string "a", .null]).HoldsItems
      (onlyListHandler Config.standard).target [.string "a", .null] := .inl rfl
  have hreaders := readers_agree (Engine.open_direct Config.standard) hitems (by decide)
    (by simp [World.Knows])
  exact ⟨hreaders.1.get 1 .null rfl, (hreaders.2 rfl).item _ _ _ _ 1 .null rfl rfl,
    hreaders.1.beyond "002" ⟨by decide, by simp; decide⟩ (by decide)⟩

end Readers

end Membrane
