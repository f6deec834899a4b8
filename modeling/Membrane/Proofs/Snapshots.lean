import Membrane.Proofs.Iterators
import Membrane.Proofs.Resolution

/-!
# Iterators are snapshots

An iterator gives what its target held when the iterator was made, each item once and in order, and
after that it is done for ever. Meanwhile scripts may make and advance other iterators, and anything
may be done to the target: an interleaving consists of steps of any iterators and of changes that
leave the iterators alone, as changes of host objects do.

## Main definitions

* `Host.Data.keySequence`, `Host.Data.valueSequence`, `Host.Data.snapshot`: the items of a
  collection.
* `Callable.iteration?`: the callables that make iterators.
* `Interleaving`, `resultsOf`: steps of iterators among other changes, and the results of one of
  them.

## Main results

* `World.iteratorItems_eq_snapshot`: the items of a new iterator.
* `Interleaving.reports`: what the steps of one iterator report.
* `iterators_are_snapshots`: the same from the making of the iterator on.
-/

namespace Membrane

open Host (Data Value)

/-! ### The items of a collection -/

namespace Host.Data

/-- The keys of a collection in order: the indices of a sequence, the members of a set, the keys of
a map. -/
def keySequence : Data → List Value
  | .list items | .array items =>
    (List.range items.size).map fun i : Nat => .integer (Int32.ofInt i)
  | .set members => members
  | .map entries => entries.map Prod.fst
  | .plain | .classRef _ => []

/-- The values of a collection in order: the elements of a sequence, the members of a set, the
values of a map. -/
def valueSequence : Data → List Value
  | .list items | .array items => items.toList
  | .set members => members
  | .map entries => entries.map Prod.snd
  | .plain | .classRef _ => []

/-- What there is to iterate in a collection. An entry is a key and the value at the same place. -/
def snapshot (data : Data) : IterationKind → List IteratorItem
  | .keys => data.keySequence.map .value
  | .values => data.valueSequence.map .value
  | .entries => List.zipWith .pair data.keySequence data.valueSequence

/-- An item is made of keys and values of the collection. -/
theorem mem_of_mem_snapshot {data : Data} {kind : IterationKind} {item : IteratorItem}
    (hitem : item ∈ data.snapshot kind) {v : Value} (hv : v ∈ item.values) :
    v ∈ data.keySequence ++ data.valueSequence := by
  cases kind with
  | keys =>
    obtain ⟨u, hu, rfl⟩ := List.mem_map.1 hitem
    cases List.mem_singleton.1 hv
    exact List.mem_append_left _ hu
  | values =>
    obtain ⟨u, hu, rfl⟩ := List.mem_map.1 hitem
    cases List.mem_singleton.1 hv
    exact List.mem_append_right _ hu
  | entries =>
    rw [snapshot, ← List.map_uncurry_zip_eq_zipWith] at hitem
    obtain ⟨⟨key, value⟩, hmem, rfl⟩ := List.mem_map.1 hitem
    obtain ⟨hkey, hvalue⟩ := List.of_mem_zip hmem
    rcases List.mem_cons.1 hv with rfl | hv
    · exact List.mem_append_left _ hkey
    · cases List.mem_singleton.1 hv
      exact List.mem_append_right _ hvalue

end Host.Data

/-- An index that fits is the number it stands for. -/
theorem indexKey_of_le {i : Nat} (h : i ≤ 2147483647) : indexKey i = .integer (Int32.ofInt i) := by
  unfold indexKey Script.Value.clampInt32
  rw [if_neg (by omega), if_neg (by omega)]

/-- The keys of a sequence of few enough items are its indices. -/
theorem map_indexKey_range {n : Nat} (h : n ≤ 2147483647) :
    (List.range n).map indexKey = (List.range n).map fun i : Nat => .integer (Int32.ofInt i) :=
  List.map_congr_left fun i hi => indexKey_of_le (by have := List.mem_range.1 hi; omega)

theorem sequenceItems_eq {items : List Value} (h : items.length ≤ 2147483647)
    (kind : IterationKind) :
    sequenceItems kind items = (Data.list items.toArray).snapshot kind := by
  have hkeys : (Data.list items.toArray).keySequence = (List.range items.length).map indexKey := by
    rw [map_indexKey_range h]
    simp only [Data.keySequence, List.size_toArray]
  cases kind with
  | keys =>
    rw [Data.snapshot, hkeys, List.map_map]
    rfl
  | values => rfl
  | entries =>
    rw [Data.snapshot, hkeys]
    refine List.ext_getElem (by simp [sequenceItems, Data.valueSequence]) fun i hi _ => ?_
    simp [sequenceItems, Data.valueSequence]

theorem entryItems_eq (entries : Dictionary Value Value) (kind : IterationKind) :
    entryItems kind entries = (Data.map entries).snapshot kind := by
  cases kind with
  | entries => simp [entryItems, Data.snapshot, Data.keySequence, Data.valueSequence]
  | _ => rfl

theorem memberItems_eq (members : List Value) (kind : IterationKind) :
    memberItems kind members = (Data.set members).snapshot kind := by
  cases kind with
  | entries => simp [memberItems, Data.snapshot, Data.keySequence, Data.valueSequence]
  | _ => rfl

/-- The items of a new iterator are those of its target. -/
theorem World.iteratorItems_eq_snapshot {w : World} {target : Value} {data : Data}
    (hdata : w.data? target = some data) (hsize : data.keySequence.length ≤ 2147483647)
    (kind : IterationKind) : w.iteratorItems target kind = data.snapshot kind := by
  rw [iteratorItems, hdata]
  cases data with
  | list items => exact sequenceItems_eq (by simpa [Data.keySequence] using hsize) kind
  | array items => exact sequenceItems_eq (by simpa [Data.keySequence] using hsize) kind
  | set members => exact memberItems_eq members kind
  | map entries => exact entryItems_eq entries kind
  | _ => cases kind <;> rfl

/-! ### New iterators -/

/-- The target and the kind of the iterators a callable makes, if it makes any: the functions that
the iterator symbol gives, and the functions of lists and sets. -/
def Callable.iteration? : Callable → Option (Value × IterationKind)
  | .iterate target kind => some (target, kind)
  | .prototype (.ofList .entries) target | .prototype (.ofSet .entries) target =>
    some (target, .entries)
  | .prototype (.ofList .keys) target => some (target, .keys)
  | .prototype (.ofList .values) target | .prototype (.ofSet .keys) target
  | .prototype (.ofSet .values) target => some (target, .values)
  | _ => none

section New

variable {eng : Engine} {k : Callable} {target : Value} {kind : IterationKind}

theorem Engine.perform_of_iteration? (hk : k.iteration? = some (target, kind)) (invoke : Invoke)
    (steps : Nat) (this : Script.Value) (args : List Script.Value) :
    eng.perform invoke steps k this args = Run.newIterator target kind := by
  unfold Callable.iteration? at hk
  split at hk <;> cases hk <;> rfl

/-- The iterator symbol of a collection gives a function that makes iterators over it. -/
theorem Engine.getProperty_iterator (eng : Engine) (h : Handler) {w : World}
    (hiterable : w.isIterable h.target = true) :
    ∃ g w', eng.getProperty h (.symbol .iterator) w = .ok (.function g) w' ∧
      w'.functions.get? g = some (.iterate h.target (w.defaultKind h.target)) ∧
      w'.objects = w.objects := by
  have hname : ∀ name, (Script.Value.symbol .iterator).propertyName? ≠ some name := nofun
  have helement : eng.getElement h (.symbol .iterator) w = .ok none w :=
    (eng.answersIff_getElement h _ w).passes fun ⟨name, hnamed, _⟩ => hname name hnamed
  have hfield : eng.getField h (.symbol .iterator) w = .ok none w :=
    (eng.answersIff_getField h _ w).passes fun ⟨name, hnamed, _⟩ => hname name hnamed
  have hmethod : getMethod h (.symbol .iterator) w = .ok none w :=
    (answersIff_getMethod h _ w).passes fun ⟨name, hnamed, _⟩ => hname name hnamed
  have hsymbol : getSymbol h (.symbol .iterator) w =
      (Run.newFunction (.iterate h.target (w.defaultKind h.target)) >>=
        fun g => pure (some g)) w := by
    simp only [getSymbol]
    rw [Run.get_bind, if_neg (by decide), hiterable, if_pos (by decide)]
  refine ⟨w.functions.next, _, getProperty_of_resolve (y := Run.newFunction
    (.iterate h.target (w.defaultKind h.target))) ?_, Store.get?_alloc_next _ _, rfl⟩
  rw [resolve, Run.firstAnswer_of_none helement, Run.firstAnswer_of_none hfield,
    Run.firstAnswer_of_none hmethod]
  exact Run.firstAnswer_of_answer hsymbol

/-- To make an iterator touches no other. -/
theorem Run.keepsIterators_newIterator {P : Ref .iterator → Prop} (target : Value)
    (kind : IterationKind) : (Run.newIterator target kind).Within (World.KeepsIterators P) := by
  intro w
  refine ⟨fun state _ items hitems => Store.get?_alloc_of_some _ hitems, fun f k hf => ?_,
    fun _ h => h⟩
  exact Store.get?_alloc_of_some _ (Store.get?_alloc_of_some _ hf)

/-- A callable that makes iterators makes a new one over what its target holds now. -/
theorem Engine.call_iteration (eng : Engine) (hk : k.iteration? = some (target, kind)) {w : World}
    {g : Ref .function} (hg : w.functions.get? g = some k) (n : Nat) (this : Script.Value)
    (args : List Script.Value) :
    ∃ it state w', eng.call (n + 1) (.function g) this args w = .ok it w' ∧
      w.iterators.get? state = none ∧ w'.Iterates it state (w.iteratorItems target kind) ∧
      w.KeepsIterators (fun _ => True) w' := by
  have hkeeps : w.KeepsIterators (fun _ => True)
      (Outcome.world (eng.call (n + 1) (.function g) this args w)) := by
    refine related_call (fun _ _ _ => .of_eq rfl rfl rfl) fun g' hg' => ?_
    cases hg'
    refine ⟨k, hg, fun _ => ?_⟩
    rw [perform_of_iteration? hk]
    exact Run.keepsIterators_newIterator target kind
  rw [eng.call_function this args n hg, perform_of_iteration? hk] at hkeeps ⊢
  refine ⟨_, w.iterators.next, _, rfl, Store.get?_next _, ⟨⟨w.records.next, w.functions.next, _,
    rfl, Store.get?_alloc_next _ _, rfl, ?_⟩, Store.get?_alloc_next _ _⟩, hkeeps⟩
  exact Store.get?_alloc_of_some _ (Store.get?_alloc_next _ _)

end New

/-! ### Interleavings -/

/-- Steps of any iterators, with changes among them that leave the iterators alone. The results tell
which iterator was advanced, and what came of it. -/
inductive Interleaving (eng : Engine) :
    World → List (Ref .iterator × Outcome Script.Value) → World → Prop
  /-- Nothing happens any more. -/
  | nil (w : World) : Interleaving eng w [] w
  /-- The step of an iterator is called. -/
  | next {w w' : World} {f : Ref .function} {state : Ref .iterator} {n : Nat} {this : Script.Value}
      {args : List Script.Value} {results : List (Ref .iterator × Outcome Script.Value)}
      (hf : w.functions.get? f = some (.next state))
      (rest : Interleaving eng (Outcome.world (eng.call (n + 1) (.function f) this args w))
        results w') :
      Interleaving eng w ((state, eng.call (n + 1) (.function f) this args w) :: results) w'
  /-- Something else happens. -/
  | change {w w₁ w' : World} {results : List (Ref .iterator × Outcome Script.Value)}
      (hkeeps : w.KeepsIterators (fun _ => True) w₁) (rest : Interleaving eng w₁ results w') :
      Interleaving eng w results w'

/-- What came of the steps of one iterator. -/
def resultsOf (state : Ref .iterator) (results : List (Ref .iterator × Outcome Script.Value)) :
    List (Outcome Script.Value) :=
  (results.filter (·.1 = state)).map Prod.snd

/-- The outcome of a step: a record that reports an item, or that the iterator is done. -/
def Outcome.Reports (outcome : Outcome Script.Value) (item? : Option IteratorItem) : Prop :=
  ∃ r w, outcome = .ok (.object r) w ∧ w.Reports r item?

/-- The steps of an iterator report the items it has left, one after the other, and then for ever
that it is done, whatever happens between them. -/
theorem Interleaving.reports {eng : Engine} {w w' : World}
    {results : List (Ref .iterator × Outcome Script.Value)} (h : Interleaving eng w results w')
    {state : Ref .iterator} {items : List IteratorItem}
    (hitems : w.iterators.get? state = some items)
    (hcross : ∀ item ∈ items, w.CrossesItem eng item) (i : Nat)
    (outcome : Outcome Script.Value) (houtcome : (resultsOf state results)[i]? = some outcome) :
    Outcome.Reports outcome items[i]? := by
  induction h generalizing items i with
  | nil w => cases houtcome
  | change hkeeps rest ih =>
    exact ih (hkeeps.iterators state trivial items hitems)
      (fun item hitem => hkeeps.crossesItem (hcross item hitem)) i houtcome
  | @next w w' f advanced n this args results hf rest ih =>
    have hkeeps : w.KeepsIterators (· ≠ advanced)
        (Outcome.world (eng.call (n + 1) (.function f) this args w)) :=
      Engine.keepsIterators_call_next hf (n + 1) this args
    have hcross' : ∀ item ∈ items,
        (Outcome.world (eng.call (n + 1) (.function f) this args w)).CrossesItem eng item :=
      fun item hitem => hkeeps.crossesItem (hcross item hitem)
    by_cases hsame : advanced = state
    · subst hsame
      obtain ⟨r, w₁, hcall, hreports, hleft⟩ := Engine.call_next hf hitems hcross n this args
      have hresults : resultsOf advanced
          ((advanced, eng.call (n + 1) (.function f) this args w) :: results) =
          eng.call (n + 1) (.function f) this args w :: resultsOf advanced results := by
        simp [resultsOf]
      rw [hresults] at houtcome
      cases i with
      | zero =>
        cases houtcome
        rw [← List.head?_eq_getElem?]
        exact ⟨r, w₁, hcall, hreports⟩
      | succ i =>
        rw [← List.getElem?_tail]
        refine ih ?_ (fun item hitem => hcross' item (List.mem_of_mem_tail hitem)) i houtcome
        rw [hcall]
        exact hleft
    · have hresults : resultsOf state
          ((advanced, eng.call (n + 1) (.function f) this args w) :: results) =
          resultsOf state results := by
        simp [resultsOf, hsame]
      rw [hresults] at houtcome
      exact ih (hkeeps.iterators state (Ne.symm hsame) items hitems) hcross' i houtcome

/-! ### From the making of an iterator on -/

/-- Iterators are single-pass snapshots. A callable that makes iterators over a target is called: a
function that the iterator symbol gave, or one of the functions of lists and sets. The iterator it
gives is new, and no other is touched. Then steps of any iterators are called, and anything else may
happen to the host objects meanwhile. The results of the new iterator are, in order, the items the
target held when it was made, each once, and from then on that it is done. A callable for the same
target that is called at any later time makes another new iterator, over what the target holds at
that time. All this as long as the engine lets the items cross, whose objects exist. -/
theorem iterators_are_snapshots {eng : Engine} {k : Callable} {target : Value}
    {kind : IterationKind} (hk : k.iteration? = some (target, kind)) {w : World}
    {g : Ref .function} (hg : w.functions.get? g = some k) {data : Data}
    (hdata : w.data? target = some data) (hsize : data.keySequence.length ≤ 2147483647)
    (hcross : ∀ v ∈ data.keySequence ++ data.valueSequence, w.Crosses eng v) (n : Nat)
    (this : Script.Value) (args : List Script.Value) :
    ∃ it state w₁, eng.call (n + 1) (.function g) this args w = .ok it w₁ ∧
      w.iterators.get? state = none ∧ w₁.Iterates it state (data.snapshot kind) ∧
      w.KeepsIterators (fun _ => True) w₁ ∧
      ∀ results w', Interleaving eng w₁ results w' →
        (∀ (i : Nat) (outcome : Outcome Script.Value),
          (resultsOf state results)[i]? = some outcome →
            Outcome.Reports outcome (data.snapshot kind)[i]?) ∧
        ∀ k' kind' g' data', k'.iteration? = some (target, kind') →
          w'.functions.get? g' = some k' → w'.data? target = some data' →
          data'.keySequence.length ≤ 2147483647 →
          ∃ it' state' w₂, eng.call (n + 1) (.function g') this args w' = .ok it' w₂ ∧
            w'.iterators.get? state' = none ∧ w₂.Iterates it' state' (data'.snapshot kind') ∧
            w'.KeepsIterators (fun _ => True) w₂ := by
  obtain ⟨it, state, w₁, hcall, hnew, hiterates, hkeeps⟩ :=
    eng.call_iteration hk hg n this args
  rw [World.iteratorItems_eq_snapshot hdata hsize] at hiterates
  have hcross' : ∀ item ∈ data.snapshot kind, w₁.CrossesItem eng item := fun item hitem =>
    hkeeps.crossesItem fun v hv => hcross v (Data.mem_of_mem_snapshot hitem hv)
  refine ⟨it, state, w₁, hcall, hnew, hiterates, hkeeps, fun results w' hresults =>
    ⟨hresults.reports hiterates.2 hcross', fun k' kind' g' data' hk' hg' hdata' hsize' => ?_⟩⟩
  obtain ⟨it', state', w₂, hcall', hnew', hiterates', hkeeps'⟩ :=
    eng.call_iteration hk' hg' n this args
  rw [World.iteratorItems_eq_snapshot hdata' hsize'] at hiterates'
  exact ⟨it', state', w₂, hcall', hnew', hiterates', hkeeps'⟩

/-- The world with a list and a function that makes iterators over it. -/
def World.ofIterable (items : List Value) : World :=
  { World.ofItems items with
    functions := ({} : Store .function Callable).alloc (.iterate onlyList .values) }

/-- After the list was cleared, an iterator still gives the two items it was made for, and is done
then. -/
theorem iterators_are_snapshots_cleared :
    ∃ it state w₁, (Engine.direct Config.standard).call 1 (.function ⟨0⟩) .undefined []
        (World.ofIterable [.integer 1, .integer 2]) = .ok it w₁ ∧
      ∀ results w', Interleaving (Engine.direct Config.standard)
          (w₁.changeItems onlyList fun _ => #[]) results w' →
        ∀ outcome : Outcome Script.Value, ((resultsOf state results)[1]? = some outcome →
            Outcome.Reports outcome (some (.value (.integer 2)))) ∧
          ((resultsOf state results)[2]? = some outcome → Outcome.Reports outcome none) := by
  have hcross : ∀ v ∈ (Data.list #[.integer 1, .integer 2]).keySequence ++
      (Data.list #[.integer 1, .integer 2]).valueSequence,
      (World.ofIterable [.integer 1, .integer 2]).Crosses (Engine.direct Config.standard) v := by
    refine fun v hv => ⟨fun _ => rfl, fun r hr => ?_⟩
    subst hr
    simp [Data.keySequence, Data.valueSequence] at hv
  obtain ⟨it, state, w₁, hcall, -, -, -, hall⟩ :=
    iterators_are_snapshots (k := .iterate onlyList .values) rfl
      (w := World.ofIterable [.integer 1, .integer 2]) (g := ⟨0⟩) rfl rfl (by decide) hcross 0
      .undefined []
  refine ⟨it, state, w₁, hcall, fun results w' hresults outcome => ?_⟩
  have hreports := (hall results w' (.change (w₁.keepsIterators_changeData _ _) hresults)).1
  exact ⟨hreports 1 outcome, hreports 2 outcome⟩

end Membrane
