import Mathlib.Order.Bounds.Basic
import Membrane.Proofs.Narrowing
import Membrane.Proofs.Ranges

/-!
# Searches for a value

Two functions of lists look for a value from the front and from the back, and a third one only tells
whether it is there. Each takes a position to start from, and they differ in what becomes of one
that lies outside. From the front, it is brought to the nearer end. From the back, one beyond the
end is the last item, and before the front there is nothing to look at. Whatever is searched, the
answer is the extreme one of the indices that come into question, or minus one if there are none.

The host has two searches of its own. They start at the front and answer the same.

## Main definitions

* `Arguments.lastPlace`: where a search from the back starts.
* `Sequence.indicesOf`: the indices at which a value stands.
* `Sequence.Finds`: that a number is the answer of a search.

## Main results

* `Sequence.searchForward_eq_some_iff`, `Sequence.searchBackward_eq_some_iff`: the searches find
  the extreme indices.
* `includes_eq_indexOf`: a value is included just if it has an index.
* `searches_find_extreme`: the answers of all searches.
-/

namespace Membrane

open Host (Value)
open Prototype (ListFunction)

/-- The last position that a search from the back looks at, as an argument gives it. A missing one
gives the last item, a negative one counts from the end, and one beyond the end is the last item. It
is negative if there is nothing to look at. -/
def Arguments.lastPlace (args : List Script.Value) (i length : Nat) : Int :=
  let place := (stop? args i).getD (length - 1)
  min (if place < 0 then place + length else place) (length - 1)

namespace Sequence

/-! ### Indices -/

/-- The indices at which a sequence has an item that is equal to a value. -/
def indicesOf (items : List Value) (v : Value) : Set Nat := {i | items[i]?.any (· == v) = true}

/-- The answer of a search is the extreme one of the indices that come into question, or minus one
if there are none. -/
inductive Finds (isExtreme : Set Nat → Nat → Prop) (indices : Set Nat) : Int32 → Prop
  | found {i : Nat} {k : Int32} (hi : isExtreme indices i) (hk : k.toInt = i) :
      Finds isExtreme indices k
  | missing (h : indices = ∅) : Finds isExtreme indices (-1)

variable {items : List Value} {args : List Script.Value} {v : Value} {i start : Nat}

theorem lt_length_of_mem_indicesOf (h : i ∈ indicesOf items v) : i < items.length := by
  by_contra hlt
  rw [indicesOf, Set.mem_ofPred_eq, List.getElem?_eq_none (Nat.le_of_not_lt hlt)] at h
  cases h

/-- The first index of a sequence is the least of all. -/
theorem findIdx?_eq_some_iff_isLeast :
    items.findIdx? (· == v) = some i ↔ IsLeast (indicesOf items v) i := by
  rw [List.findIdx?_eq_some_iff_getElem]
  constructor
  · rintro ⟨hi, hequal, hbefore⟩
    refine ⟨by simpa [indicesOf, hi] using hequal, fun j hj => Nat.not_lt.1 fun hji => ?_⟩
    have hlt := lt_length_of_mem_indicesOf hj
    exact hbefore j hji (by simpa [indicesOf, hlt] using hj)
  · rintro ⟨hmem, hleast⟩
    have hi := lt_length_of_mem_indicesOf hmem
    refine ⟨hi, by simpa [indicesOf, hi] using hmem, fun j hji hequal => ?_⟩
    have hj : j ∈ indicesOf items v := by simpa [indicesOf, hji.trans hi] using hequal
    exact absurd (hleast hj) (Nat.not_le.2 hji)

theorem findIdx?_eq_none_iff_eq_empty :
    items.findIdx? (· == v) = none ↔ indicesOf items v = ∅ := by
  rw [List.findIdx?_eq_none_iff, Set.eq_empty_iff_forall_notMem]
  constructor
  · intro h i hi
    have hlt := lt_length_of_mem_indicesOf hi
    have hequal : (items[i] == v) = true := by simpa [indicesOf, hlt] using hi
    rw [h _ (List.getElem_mem hlt)] at hequal
    cases hequal
  · intro h x hx
    obtain ⟨i, hi, rfl⟩ := List.getElem_of_mem hx
    simpa [indicesOf, hi] using h i

/-! ### From the front -/

theorem mem_indicesOf_drop :
    i ∈ indicesOf (items.drop start) v ↔ start + i ∈ indicesOf items v := by
  rw [indicesOf, Set.mem_ofPred_eq, List.getElem?_drop]
  rfl

/-- A search from the front finds the least index that is not before its start. -/
theorem searchForward_eq_some_iff :
    searchForward items v args = some i ↔
      IsLeast {i ∈ indicesOf items v | Arguments.place args 1 items.length ≤ i} i := by
  unfold searchForward
  dsimp only
  rw [resolveIndex_int, Option.map_eq_some_iff]
  generalize Arguments.place args 1 items.length = start
  simp only [findIdx?_eq_some_iff_isLeast]
  constructor
  · rintro ⟨j, ⟨hmem, hleast⟩, rfl⟩
    refine ⟨⟨?_, Nat.le_add_left _ _⟩, fun k ⟨hk, hstart⟩ => ?_⟩
    · rw [Nat.add_comm]
      exact mem_indicesOf_drop.1 hmem
    · have hj := hleast (mem_indicesOf_drop.2 (by rwa [Nat.add_sub_cancel' hstart]) :
        k - start ∈ indicesOf (items.drop start) v)
      omega
  · rintro ⟨⟨hmem, hstart⟩, hleast⟩
    refine ⟨i - start, ⟨mem_indicesOf_drop.2 (by rwa [Nat.add_sub_cancel' hstart]), ?_⟩, by omega⟩
    intro k hk
    have hi := hleast ⟨mem_indicesOf_drop.1 hk, Nat.le_add_right _ _⟩
    omega

theorem searchForward_eq_none_iff :
    searchForward items v args = none ↔
      {i ∈ indicesOf items v | Arguments.place args 1 items.length ≤ i} = ∅ := by
  unfold searchForward
  dsimp only
  rw [resolveIndex_int, Option.map_eq_none_iff, findIdx?_eq_none_iff_eq_empty]
  generalize Arguments.place args 1 items.length = start
  simp only [Set.eq_empty_iff_forall_notMem, mem_indicesOf_drop, Set.mem_ofPred_eq, not_and]
  constructor
  · intro h i hi hstart
    exact h (i - start) (by rwa [Nat.add_sub_cancel' hstart])
  · exact fun h i hi => h (start + i) hi (Nat.le_add_right _ _)

/-! ### From the back -/

theorem mem_indicesOf_take {count : Nat} :
    i ∈ indicesOf (items.take count) v ↔ i ∈ indicesOf items v ∧ i < count := by
  simp only [indicesOf, Set.mem_ofPred_eq, List.getElem?_take]
  split
  · next h => simp [h]
  · next h => simp [h]

theorem mem_indicesOf_reverse (hi : i < items.length) :
    i ∈ indicesOf items.reverse v ↔ items.length - 1 - i ∈ indicesOf items v := by
  simp only [indicesOf, Set.mem_ofPred_eq, List.getElem?_reverse hi]

/-- The first index of the reversed sequence, counted from the end, is the greatest of all. -/
theorem findIdx?_reverse_eq_some_iff_isGreatest :
    (items.reverse.findIdx? (· == v)).map (items.length - 1 - ·) = some i ↔
      IsGreatest (indicesOf items v) i := by
  simp only [Option.map_eq_some_iff, findIdx?_eq_some_iff_isLeast]
  constructor
  · rintro ⟨j, ⟨hmem, hleast⟩, rfl⟩
    have hj : j < items.length := by simpa using lt_length_of_mem_indicesOf hmem
    refine ⟨(mem_indicesOf_reverse hj).1 hmem, fun k hk => ?_⟩
    have hlt := lt_length_of_mem_indicesOf hk
    have := hleast ((mem_indicesOf_reverse (i := items.length - 1 - k) (by omega)).2 (by
      rwa [Nat.sub_sub_self (by omega)]))
    omega
  · rintro ⟨hmem, hgreatest⟩
    have hi := lt_length_of_mem_indicesOf hmem
    refine ⟨items.length - 1 - i, ⟨?_, fun k hk => ?_⟩, by omega⟩
    · rw [mem_indicesOf_reverse (by omega), Nat.sub_sub_self (by omega)]
      exact hmem
    · have hlt : k < items.length := by simpa using lt_length_of_mem_indicesOf hk
      have := hgreatest ((mem_indicesOf_reverse hlt).1 hk)
      omega

/-- The items before a position, as far as there are any, have the indices up to the one before. -/
theorem indicesOf_take_succ {place : Int} (hplace : 0 ≤ place) :
    indicesOf (items.take (place.toNat + 1)) v = {j ∈ indicesOf items v | (j : Int) ≤ place} := by
  ext j
  rw [mem_indicesOf_take, Set.mem_ofPred_eq]
  exact and_congr_right fun _ => by omega

theorem lastPlace_lt (args : List Script.Value) (i length : Nat) :
    Arguments.lastPlace args i length < length :=
  Int.lt_of_le_of_lt (min_le_right _ _) (by omega)

/-- A search from the back is one of the reversed items up to the last place, if there is any. -/
theorem searchBackward_eq (hsize : items.length ≤ 2147483647) :
    searchBackward items v args =
      if Arguments.lastPlace args 1 items.length < 0 then none
      else
        let candidates := items.take ((Arguments.lastPlace args 1 items.length).toNat + 1)
        (candidates.reverse.findIdx? (· == v)).map (candidates.length - 1 - ·) := by
  unfold searchBackward
  cases items with
  | nil => exact (if_pos (lastPlace_lt args 1 0)).symm
  | cons u rest =>
    have hdefault : (lengthInt32 rest.length).toInt = rest.length :=
      clampInt32_ofNat (Nat.le_trans (Nat.le_succ _) hsize)
    have hstart : (Arguments.int args 1 (lengthInt32 rest.length)).toInt =
        (Arguments.stop? args 1).getD rest.length := by
      cases h : Arguments.stop? args 1 with
      | none => rw [Arguments.int_of_stop?_eq_none h, hdefault, Option.getD_none]
      | some stop => rw [Arguments.int_of_stop?_eq_some h, Option.getD_some]
    have hlast : ((rest.length + 1 : Nat) : Int) - 1 = rest.length := by omega
    simp only [List.isEmpty_cons, Bool.false_eq_true, if_false, List.length_cons,
      Nat.add_sub_cancel, hstart, Arguments.lastPlace, hlast]
    generalize (Arguments.stop? args 1).getD (rest.length : Int) = start
    generalize (if start < 0 then start + ((rest.length + 1 : Nat) : Int) else start) = place
    by_cases hplace : place < 0
    · rw [if_pos hplace, if_pos (by omega)]
    · have hcount : min place.toNat rest.length = (min place rest.length).toNat := by omega
      rw [if_neg hplace, if_neg (by omega), hcount]

/-- A search from the back finds the greatest index up to the last place. -/
theorem searchBackward_eq_some_iff (hsize : items.length ≤ 2147483647) :
    searchBackward items v args = some i ↔
      IsGreatest {j ∈ indicesOf items v | (j : Int) ≤ Arguments.lastPlace args 1 items.length}
        i := by
  rw [searchBackward_eq hsize]
  by_cases hplace : Arguments.lastPlace args 1 items.length < 0
  · rw [if_pos hplace]
    exact ⟨nofun, fun h => absurd h.1.2 (by omega)⟩
  · rw [if_neg hplace, ← indicesOf_take_succ (Int.not_lt.1 hplace)]
    exact findIdx?_reverse_eq_some_iff_isGreatest

theorem searchBackward_eq_none_iff (hsize : items.length ≤ 2147483647) :
    searchBackward items v args = none ↔
      {j ∈ indicesOf items v | (j : Int) ≤ Arguments.lastPlace args 1 items.length} = ∅ := by
  rw [searchBackward_eq hsize]
  by_cases hplace : Arguments.lastPlace args 1 items.length < 0
  · rw [if_pos hplace, Set.eq_empty_iff_forall_notMem]
    exact iff_of_true rfl fun j hj => absurd hj.2 (by omega)
  · rw [if_neg hplace, ← indicesOf_take_succ (Int.not_lt.1 hplace),
      ← findIdx?_eq_none_iff_eq_empty]
    simp only [Option.map_eq_none_iff, List.findIdx?_eq_none_iff, List.mem_reverse]

/-- What a search finds, as a number. -/
def answer (found : Option Nat) : Int32 := found.elim (-1) fun i => Script.Value.clampInt32 i

theorem answer_toInt (hi : i ≤ 2147483647) : (answer (some i)).toInt = i := clampInt32_ofNat hi

theorem answer_nonneg (i : Nat) : 0 ≤ (answer (some i)).toInt := by
  obtain rfl | hi := Nat.eq_zero_or_pos i
  · decide
  · exact Int.le_of_lt ((Script.Value.clampInt32_pos_iff i).2 (by omega))

/-- The answer is minus one just if nothing is found. -/
theorem answer_ne_iff {found : Option Nat} : answer found ≠ -1 ↔ found.isSome = true := by
  cases found with
  | none => exact iff_of_false (fun h => h rfl) nofun
  | some i => exact iff_of_true (fun h => absurd (h ▸ answer_nonneg i) (by decide)) rfl

theorem finds_answer {isExtreme : Set Nat → Nat → Prop} {indices : Set Nat} {found : Option Nat}
    (hsome : ∀ i, found = some i → isExtreme indices i ∧ i ≤ 2147483647)
    (hnone : found = none → indices = ∅) : Finds isExtreme indices (answer found) := by
  cases found with
  | none => exact .missing (hnone rfl)
  | some i => exact .found (hsome i rfl).1 (answer_toInt (hsome i rfl).2)

/-- Of the same indices, the first one is not after the last. -/
theorem Finds.le {indices : Set Nat} {first last : Int32} (hfirst : Finds IsLeast indices first)
    (hlast : Finds IsGreatest indices last) :
    first = -1 ∧ last = -1 ∨ 0 ≤ first.toInt ∧ first.toInt ≤ last.toInt := by
  cases hfirst with
  | missing hempty =>
    cases hlast with
    | missing _ => exact .inl ⟨rfl, rfl⟩
    | found hj hl => exact absurd hj.1 (hempty ▸ Set.notMem_empty _)
  | found hi hk =>
    cases hlast with
    | missing hempty => exact absurd hi.1 (hempty ▸ Set.notMem_empty _)
    | found hj hl =>
      have hle := hi.2 hj.1
      exact .inr ⟨by omega, by omega⟩

/-! ### Without a position -/

/-- A missing position leaves out no index from the front. -/
theorem indices_from_missing (h : Arguments.stop? args 1 = none) :
    {j ∈ indicesOf items v | Arguments.place args 1 items.length ≤ j} = indicesOf items v := by
  have hplace : Arguments.place args 1 items.length = 0 := by
    rw [Arguments.place, Arguments.int_of_stop?_eq_none h]
    exact relative_zero _
  rw [hplace]
  exact Set.sep_eq_self_iff_mem_true.2 fun j _ => Nat.zero_le j

/-- Nor does it leave out one from the back. -/
theorem indices_upTo_missing (h : Arguments.stop? args 1 = none) :
    {j ∈ indicesOf items v | (j : Int) ≤ Arguments.lastPlace args 1 items.length} =
      indicesOf items v := by
  refine Set.sep_eq_self_iff_mem_true.2 fun j hj => ?_
  have hlt := lt_length_of_mem_indicesOf hj
  rw [Arguments.lastPlace, h, Option.getD_none]
  omega

theorem searchForward_of_missing (h : Arguments.stop? args 1 = none) :
    searchForward items v args = items.findIdx? (· == v) := by
  ext i
  rw [searchForward_eq_some_iff, indices_from_missing h, findIdx?_eq_some_iff_isLeast]

end Sequence

/-! ### Runs -/

section Runs

variable {eng : Engine} {invoke : Invoke} {steps : Nat} {target : Value} {this value : Script.Value}
  {args rest : List Script.Value} {items : List Value} {v : Value} {w w₁ : World}

/-- A value that crosses is searched for in the items there are. -/
theorem search_eq_ok (find : List Value → Value → List Script.Value → Option Nat)
    (hlist : w.list? target = some items.toArray) (hvalue : eng.toHost value w = .ok v w₁) :
    OnList.search eng target (value :: rest) find w =
      .ok (find items v (value :: rest)) w₁ := by
  have hadds := eng.within_toHost value w
  rw [hvalue] at hadds
  exact (Run.bind_of_ok hvalue).trans (Run.bind_of_ok (listValues_eq_ok (hadds.list? hlist)))

theorem ofSearch_eq (found : Option Nat) :
    OnList.ofSearch found = .integer (Sequence.answer found) := by
  cases found <;> rfl

/-- A value is included just if it has an index. -/
theorem includes_eq_indexOf :
    (ListFunction.includes).run eng invoke steps target this args = (do
      let first ← (ListFunction.indexOf).run eng invoke steps target this args
      return .boolean (decide (first ≠ .integer (-1)))) := by
  have htruth (found : Option Nat) :
      decide (OnList.ofSearch found ≠ .integer (-1)) = found.isSome := by
    rw [ofSearch_eq, Bool.eq_iff_iff, decide_eq_true_iff, ← Sequence.answer_ne_iff]
    exact not_congr (by rw [Script.Value.integer.injEq])
  simp only [ListFunction.run, OnList.includes, OnList.indexOf, bind_assoc, pure_bind, htruth]

theorem run_indexOf (hlist : w.list? target = some items.toArray)
    (hvalue : eng.toHost value w = .ok v w₁) :
    (ListFunction.indexOf).run eng invoke steps target this (value :: rest) w =
      .ok (.integer (Sequence.answer (Sequence.searchForward items v (value :: rest)))) w₁ := by
  rw [← ofSearch_eq]
  exact Run.bind_of_ok (search_eq_ok Sequence.searchForward hlist hvalue)

theorem run_lastIndexOf (hlist : w.list? target = some items.toArray)
    (hvalue : eng.toHost value w = .ok v w₁) :
    (ListFunction.lastIndexOf).run eng invoke steps target this (value :: rest) w =
      .ok (.integer (Sequence.answer (Sequence.searchBackward items v (value :: rest)))) w₁ := by
  rw [← ofSearch_eq]
  exact Run.bind_of_ok (search_eq_ok Sequence.searchBackward hlist hvalue)

theorem run_includes (hlist : w.list? target = some items.toArray)
    (hvalue : eng.toHost value w = .ok v w₁) :
    (ListFunction.includes).run eng invoke steps target this (value :: rest) w =
      .ok (.boolean (Sequence.searchForward items v (value :: rest)).isSome) w₁ :=
  Run.bind_of_ok (search_eq_ok Sequence.searchForward hlist hvalue)

/-- The searches of the host start at the front. -/
theorem run_listIndexOf (hasher : Host.Hasher) (hlist : w.list? target = some items.toArray) :
    Host.BuiltIn.listIndexOf.run hasher target [v] w =
      .ok (.integer (Sequence.answer (items.findIdx? (· == v)))) w := by
  refine (Run.bind_of_ok (Host.listOf_eq_ok hlist)).trans ?_
  have hargument : Host.argument [v] 0 = v := rfl
  rw [List.findIdx?_toArray, hargument]
  cases items.findIdx? (· == v) <;> rfl

theorem run_listContains (hasher : Host.Hasher) (hlist : w.list? target = some items.toArray) :
    Host.BuiltIn.listContains.run hasher target [v] w =
      .ok (.boolean (items.findIdx? (· == v)).isSome) w := by
  refine (Run.bind_of_ok (Host.listOf_eq_ok hlist)).trans ?_
  rw [List.any_toArray, List.findIdx?_isSome]
  rfl

end Runs

/-- On a list no longer than indices of 32 bits go, a value that the engine lets cross is searched
for as the host value it has become. The first index is the least one that is not before the
position given, a missing position being the front, and the last index is the greatest one up to the
position given, a missing one being the last item; either is minus one if there is no such index. A
value is included just if its first index is not minus one. Without a position, there is no first
index and no last, or the first is not after the last, and the two searches of the host give the
same answers. -/
theorem searches_find_extreme (eng : Engine) (invoke : Invoke) (steps : Nat) (target : Value)
    (this value : Script.Value) (rest : List Script.Value) {items : List Value} {w w₁ : World}
    (hlist : w.list? target = some items.toArray) (hsize : items.length ≤ 2147483647) {v : Value}
    (hvalue : eng.toHost value w = .ok v w₁) :
    ∃ first last : Int32,
      (ListFunction.indexOf).run eng invoke steps target this (value :: rest) w =
        .ok (.integer first) w₁ ∧
      Sequence.Finds IsLeast {i ∈ Sequence.indicesOf items v |
        Arguments.place (value :: rest) 1 items.length ≤ i} first ∧
      (ListFunction.lastIndexOf).run eng invoke steps target this (value :: rest) w =
        .ok (.integer last) w₁ ∧
      Sequence.Finds IsGreatest {i ∈ Sequence.indicesOf items v |
        (i : Int) ≤ Arguments.lastPlace (value :: rest) 1 items.length} last ∧
      (ListFunction.includes).run eng invoke steps target this (value :: rest) w =
        .ok (.boolean (decide (first ≠ -1))) w₁ ∧
      (Arguments.stop? (value :: rest) 1 = none →
        (first = -1 ∧ last = -1 ∨ 0 ≤ first.toInt ∧ first.toInt ≤ last.toInt) ∧
        Host.BuiltIn.listIndexOf.run eng.hasher target [v] w₁ = .ok (.integer first) w₁ ∧
        Host.BuiltIn.listContains.run eng.hasher target [v] w₁ =
          .ok (.boolean (decide (first ≠ -1))) w₁) := by
  have hadds := eng.within_toHost value w
  rw [hvalue] at hadds
  have hlist₁ : w₁.list? target = some items.toArray := hadds.list? hlist
  have hfirst := @Sequence.finds_answer _ _ (Sequence.searchForward items v (value :: rest))
    (fun i hi => by
      have hleast := Sequence.searchForward_eq_some_iff.1 hi
      have hlt := Sequence.lt_length_of_mem_indicesOf hleast.1.1
      exact ⟨hleast, by omega⟩)
    Sequence.searchForward_eq_none_iff.1
  have hlast := @Sequence.finds_answer _ _ (Sequence.searchBackward items v (value :: rest))
    (fun i hi => by
      have hgreatest := (Sequence.searchBackward_eq_some_iff hsize).1 hi
      have hlt := Sequence.lt_length_of_mem_indicesOf hgreatest.1.1
      exact ⟨hgreatest, by omega⟩)
    (Sequence.searchBackward_eq_none_iff hsize).1
  refine ⟨_, _, run_indexOf hlist hvalue, hfirst, run_lastIndexOf hlist hvalue, hlast, ?_,
    fun hmissing => ⟨?_, ?_, ?_⟩⟩
  · rw [run_includes hlist hvalue]
    simp only [Sequence.answer_ne_iff, Bool.decide_coe]
  · rw [Sequence.indices_from_missing hmissing] at hfirst
    rw [Sequence.indices_upTo_missing hmissing] at hlast
    exact hfirst.le hlast
  · rw [Sequence.searchForward_of_missing hmissing]
    exact run_listIndexOf _ hlist₁
  · rw [Sequence.searchForward_of_missing hmissing]
    simp only [Sequence.answer_ne_iff, Bool.decide_coe]
    exact run_listContains _ hlist₁

/-- A value that stands at both ends of three items is found at the back by a search from the second
last item on, and at the front by one back from there. Without a position it is the other way
round, and the host finds it at the front. -/
theorem searches_find_extreme_ends :
    (∃ w, (ListFunction.indexOf).run (Engine.direct Config.standard) (fun _ _ _ => pure .null) 0
          onlyList .undefined [.integer 1, .integer (-2)]
          (World.ofItems [.integer 1, .integer 2, .integer 1]) = .ok (.integer 2) w ∧
        (ListFunction.lastIndexOf).run (Engine.direct Config.standard) (fun _ _ _ => pure .null) 0
          onlyList .undefined [.integer 1, .integer (-2)]
          (World.ofItems [.integer 1, .integer 2, .integer 1]) = .ok (.integer 0) w) ∧
      ∃ w, (ListFunction.indexOf).run (Engine.direct Config.standard) (fun _ _ _ => pure .null) 0
          onlyList .undefined [.integer 1]
          (World.ofItems [.integer 1, .integer 2, .integer 1]) = .ok (.integer 0) w ∧
        (ListFunction.lastIndexOf).run (Engine.direct Config.standard) (fun _ _ _ => pure .null) 0
          onlyList .undefined [.integer 1]
          (World.ofItems [.integer 1, .integer 2, .integer 1]) = .ok (.integer 2) w ∧
        Host.BuiltIn.listIndexOf.run .standard onlyList [.integer 1] w = .ok (.integer 0) w ∧
        Host.BuiltIn.listContains.run .standard onlyList [.integer 1] w =
          .ok (.boolean true) w := by
  have hlist : (World.ofItems [.integer 1, .integer 2, .integer 1]).list? onlyList =
    some [.integer 1, .integer 2, .integer 1].toArray := rfl
  have hruns (rest : List Script.Value) :=
    searches_find_extreme (Engine.direct Config.standard) (fun _ _ _ => pure .null) 0 onlyList
      .undefined (.integer 1) rest hlist (by decide) rfl
  obtain ⟨first, last, hfirst, -, hlast, -⟩ := hruns [.integer (-2)]
  obtain ⟨first', last', hfirst', -, hlast', -, -, hmissing⟩ := hruns []
  obtain ⟨-, hhost, hcontains⟩ := hmissing rfl
  obtain rfl : first = 2 := by injection hfirst with h; injection h with h; exact h.symm
  obtain rfl : last = 0 := by injection hlast with h; injection h with h; exact h.symm
  obtain rfl : first' = 0 := by injection hfirst' with h; injection h with h; exact h.symm
  obtain rfl : last' = 2 := by injection hlast' with h; injection h with h; exact h.symm
  exact ⟨⟨_, hfirst, hlast⟩, _, hfirst', hlast', hhost, hcontains⟩

end Membrane
