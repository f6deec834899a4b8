import Membrane.Proofs.Crossing
import Membrane.Proofs.HeldSequence

/-!
# Positions and ranges

Two functions of lists take a range of positions: one overwrites it with a value, the other copies
it to an array. A position counts from the end if it is negative and is brought to the nearer end if
it lies outside. The two functions read the start of a range alike, and a missing end is the end of
the list for both. They differ on an end that is given and comes to lie at the front. It selects
nothing for a copy, but stands for the end of the list when values are overwritten.

## Main definitions

* `Sequence.relative`, `Arguments.place`: what a position comes to in a sequence of a given length,
  and the one that an argument gives.
* `Arguments.stop?`, `Sequence.selected`: the end of a range, and the indices a range selects.
* `Sequence.StopsAtFront`: that the end of a range is given and comes to lie at the front.

## Main results

* `resolveIndex_eq_relative`: positions are resolved so.
* `Sequence.getElem?_overwrite`, `Sequence.slice_eq_selected`: the two functions, item by item.
* `fill_overwrites_selected`: which items each of them takes.
-/

namespace Membrane

open Host (Value)
open Prototype (ListFunction)

/-! ### Positions -/

/-- A position in a sequence of a given length: a negative one counts from the end, and one that
lies outside is brought to the nearer end. -/
def Sequence.relative (i : Int) (length : Nat) : Nat :=
  (max 0 (min (length : Int) (if i < 0 then i + length else i))).toNat

namespace Sequence

theorem relative_le (i : Int) (length : Nat) : relative i length ≤ length := by
  unfold relative
  omega

/-- The length is the position of the end. -/
@[simp] theorem relative_length (length : Nat) : relative length length = length := by
  unfold relative
  split <;> omega

@[simp] theorem relative_zero (length : Nat) : relative 0 length = 0 := by
  unfold relative
  rw [if_neg (by omega)]
  omega

end Sequence

theorem resolveIndex_eq_relative (i : Int32) (length : Nat) :
    resolveIndex i length = Sequence.relative i.toInt length := by
  unfold resolveIndex Sequence.relative
  split <;> omega

/-- The position that an argument gives, in a sequence of a given length. A missing one gives the
front. -/
def Arguments.place (args : List Script.Value) (i length : Nat) : Nat :=
  Sequence.relative (int args i 0).toInt length

theorem resolveIndex_int (args : List Script.Value) (i length : Nat) :
    resolveIndex (Arguments.int args i 0) length = Arguments.place args i length :=
  resolveIndex_eq_relative _ _

/-- The end of a range that an argument gives, if it gives any. -/
def Arguments.stop? (args : List Script.Value) (i : Nat) : Option Int :=
  match args[i]? with
  | none | some .undefined => none
  | some v => some v.toInt32.toInt

/-- An argument that gives no end is read as whatever stands for a missing one. -/
theorem Arguments.int_of_stop?_eq_none {args : List Script.Value} {i : Nat}
    (h : stop? args i = none) (default : Int32) : int args i default = default := by
  unfold stop? at h
  unfold int
  generalize args[i]? = arg at h ⊢
  cases arg with
  | none => rfl
  | some v =>
    cases v with
    | undefined => rfl
    | _ => cases h

theorem Arguments.int_of_stop?_eq_some {args : List Script.Value} {i : Nat} {stop : Int}
    (h : stop? args i = some stop) (default : Int32) : (int args i default).toInt = stop := by
  unfold stop? at h
  unfold int
  generalize args[i]? = arg at h ⊢
  cases arg with
  | none => cases h
  | some v =>
    cases v with
    | undefined => cases h
    | _ => exact Option.some.inj h

namespace Sequence

variable {items : List Value} {args : List Script.Value} {v : Value} {start stop : Nat}

/-- The indices that two arguments select in a sequence of a given length: from the first up to
before the second, or up to the end without a second. -/
def selected (args : List Script.Value) (length : Nat) : List Nat :=
  let start := Arguments.place args 0 length
  let stop := (Arguments.stop? args 1).elim length (relative · length)
  List.range' start (stop - start)

/-- The end of a range is given and comes to lie at the front. -/
def StopsAtFront (args : List Script.Value) (length : Nat) : Prop :=
  ∃ stop ∈ Arguments.stop? args 1, relative stop length = 0

instance (args : List Script.Value) (length : Nat) : Decidable (StopsAtFront args length) :=
  inferInstanceAs (Decidable (∃ stop ∈ Arguments.stop? args 1, relative stop length = 0))

/-! ### Items in a range -/

/-- The items of a range are those at its indices. -/
theorem between_eq_filterMap (items : List Value) (start stop : Nat) :
    between items start stop =
      (List.range' start (stop - start)).filterMap (items[·]?) := by
  unfold between
  generalize stop - start = count
  induction count generalizing start with
  | zero => simp
  | succ count ih =>
    rw [List.range'_succ, List.filterMap_cons, ← ih (start + 1)]
    by_cases hstart : start < items.length
    · rw [List.drop_eq_getElem_cons hstart, List.getElem?_eq_getElem hstart]
      rfl
    · rw [List.getElem?_eq_none (by omega), List.drop_eq_nil_of_le (by omega),
        List.drop_eq_nil_of_le (by omega)]
      simp

theorem length_overwrite (hstop : stop ≤ items.length) :
    (overwrite items v start stop).length = items.length := by
  unfold overwrite
  split
  · simp only [List.length_append, List.length_take, List.length_replicate, List.length_drop]
    omega
  · rfl

/-- The items in the range are overwritten, and no others. -/
theorem getElem?_overwrite (hstop : stop ≤ items.length) (i : Nat) :
    (overwrite items v start stop)[i]? = if start ≤ i ∧ i < stop then some v else items[i]? := by
  unfold overwrite
  split
  · simp only [List.getElem?_append, List.length_append, List.length_take, List.length_replicate,
      List.getElem?_take, List.getElem?_replicate, List.getElem?_drop]
    grind
  · rw [if_neg (by omega)]

/-! ### The two functions -/

/-- The end of a range of a function that overwrites. -/
theorem rangeEnd_eq (args : List Script.Value) (i length : Nat) :
    rangeEnd args i length =
      if Arguments.place args i length = 0 then length else Arguments.place args i length := by
  unfold rangeEnd
  rw [resolveIndex_int]
  split
  · next h => rw [if_pos h]
  · next h => rw [if_neg fun h0 => h h0]

/-- A copy takes the items at the indices that its arguments select. -/
theorem slice_eq_selected (hsize : items.length ≤ 2147483647) (args : List Script.Value) :
    slice items args = (selected args items.length).filterMap (items[·]?) := by
  have hlength : (lengthInt32 items.length).toInt = items.length := clampInt32_ofNat hsize
  have hstop : resolveIndex (Arguments.int args 1 (lengthInt32 items.length)) items.length =
      (Arguments.stop? args 1).elim items.length (relative · items.length) := by
    rw [resolveIndex_eq_relative]
    cases h : Arguments.stop? args 1 with
    | none => rw [Arguments.int_of_stop?_eq_none h, hlength, relative_length, Option.elim_none]
    | some stop => rw [Arguments.int_of_stop?_eq_some h, Option.elim_some]
  unfold slice selected
  simp only [hstop, resolveIndex_int]
  exact between_eq_filterMap _ _ _

variable {value : Script.Value} {range : List Script.Value} {length : Nat}

theorem place_of_stop? {stop : Int} (h : Arguments.stop? range 1 = some stop) :
    Arguments.place (value :: range) 2 length = relative stop length :=
  congrArg (relative · length) (Arguments.int_of_stop?_eq_some h 0)

theorem place_of_stop?_eq_none (h : Arguments.stop? range 1 = none) :
    Arguments.place (value :: range) 2 length = 0 := by
  have hint : Arguments.int (value :: range) 2 0 = 0 := Arguments.int_of_stop?_eq_none h 0
  unfold Arguments.place
  rw [hint]
  exact relative_zero length

theorem rangeEnd_of_stopsAtFront (h : StopsAtFront range length) :
    rangeEnd (value :: range) 2 length = length := by
  obtain ⟨stop, hstop, hfront⟩ := h
  rw [rangeEnd_eq, place_of_stop? (Option.mem_def.1 hstop), if_pos hfront]

theorem rangeEnd_of_not_stopsAtFront (h : ¬StopsAtFront range length) :
    rangeEnd (value :: range) 2 length =
      (Arguments.stop? range 1).elim length (relative · length) := by
  rw [rangeEnd_eq]
  cases hstop : Arguments.stop? range 1 with
  | none => exact if_pos (place_of_stop?_eq_none hstop)
  | some stop =>
    rw [place_of_stop? hstop]
    exact if_neg fun hfront => h ⟨stop, hstop, hfront⟩

/-- Nothing is selected before the front. -/
theorem selected_of_stopsAtFront (h : StopsAtFront range length) : selected range length = [] := by
  obtain ⟨stop, hstop, hfront⟩ := h
  simp [selected, Option.mem_def.1 hstop, hfront]

theorem mem_selected (i : Nat) :
    i ∈ selected range length ↔ Arguments.place range 0 length ≤ i ∧
      i < (Arguments.stop? range 1).elim length (relative · length) := by
  simp only [selected, List.mem_range'_1]
  omega

theorem rangeEnd_le (args : List Script.Value) (i length : Nat) :
    rangeEnd args i length ≤ length := by
  rw [rangeEnd_eq]
  split
  · exact Nat.le_refl _
  · exact relative_le _ _

theorem length_fill (items : List Value) (v : Value) (args : List Script.Value) :
    (fill items v args).length = items.length :=
  length_overwrite (rangeEnd_le args 2 items.length)

/-- A fill overwrites the items from the start up to before the end that it reads. -/
theorem getElem?_fill (items : List Value) (v : Value) (value : Script.Value)
    (range : List Script.Value) (i : Nat) :
    (fill items v (value :: range))[i]? =
      if Arguments.place range 0 items.length ≤ i ∧
          i < rangeEnd (value :: range) 2 items.length then some v
      else items[i]? := by
  unfold fill
  rw [getElem?_overwrite (rangeEnd_le _ 2 _), resolveIndex_int]
  rfl

end Sequence

/-! ### Runs -/

section Runs

variable {eng : Engine} {invoke : Invoke} {steps : Nat} {target : Value} {this : Script.Value}
  {args : List Script.Value} {items : List Value} {w w₁ : World}

theorem run_slice (hlist : w.list? target = some items.toArray) :
    (ListFunction.slice).run eng invoke steps target this args w =
      eng.toScriptArray (Sequence.slice items args) w :=
  Run.bind_of_ok (listValues_eq_ok hlist)

/-- A fill carries its value to the host and puts it into the list. -/
theorem run_fill (hlist : w.list? target = some items.toArray) (hne : items ≠ [])
    (hargs : args ≠ []) {v : Value} (hvalue : eng.toHost (Arguments.get args 0) w = .ok v w₁) :
    (ListFunction.fill).run eng invoke steps target this args w =
      .ok this (w₁.putData target (.list (Sequence.fill items v args).toArray)) := by
  have hif : (!items.isEmpty && !args.isEmpty) = true := by simp [hne, hargs]
  refine (Run.bind_of_ok (listValues_eq_ok hlist)).trans ?_
  rw [if_pos hif]
  exact (Run.bind_of_ok hvalue).trans (Run.bind_of_ok (putItems_apply target _ w₁))

end Runs

/-- Of a list that is not empty and no longer than indices of 32 bits go, a slice carries the items
at the selected indices to an array. A fill with a value that the engine lets cross returns its
receiver, leaves the length as it is and overwrites the items at the very indices that a slice with
the same range selects, and no others, unless the end of the range is given and comes to lie at the
front: then a slice selects nothing, and a fill overwrites all items from the start on. -/
theorem fill_overwrites_selected (eng : Engine) (invoke : Invoke) (steps : Nat) (target : Value)
    (this value : Script.Value) (range : List Script.Value) {items : List Value} {w w₁ : World}
    (hlist : w.list? target = some items.toArray) (hne : items ≠ [])
    (hsize : items.length ≤ 2147483647) {v : Value} (hvalue : eng.toHost value w = .ok v w₁) :
    (ListFunction.slice).run eng invoke steps target this range w =
        eng.toScriptArray ((Sequence.selected range items.length).filterMap (items[·]?)) w ∧
      ∃ (left : List Value) (w₂ : World), w₂ = w₁.putData target (.list left.toArray) ∧
        (ListFunction.fill).run eng invoke steps target this (value :: range) w = .ok this w₂ ∧
        w₂.list? target = some left.toArray ∧ left.length = items.length ∧
        (¬Sequence.StopsAtFront range items.length → ∀ i,
          left[i]? = if i ∈ Sequence.selected range items.length then some v else items[i]?) ∧
        (Sequence.StopsAtFront range items.length →
          Sequence.selected range items.length = [] ∧ ∀ i, left[i]? =
            if Arguments.place range 0 items.length ≤ i ∧
              i < items.length then some v else items[i]?) := by
  have hadds := eng.within_toHost value w
  rw [hvalue] at hadds
  refine ⟨?_, Sequence.fill items v (value :: range), _, rfl,
    run_fill hlist hne (List.cons_ne_nil _ _) hvalue, World.list?_putData (hadds.list? hlist) _,
    Sequence.length_fill _ _ _, fun hstop i => ?_, fun hstop => ⟨?_, fun i => ?_⟩⟩
  · rw [run_slice hlist, Sequence.slice_eq_selected hsize]
  · simp only [Sequence.getElem?_fill, Sequence.mem_selected,
      Sequence.rangeEnd_of_not_stopsAtFront hstop]
  · exact Sequence.selected_of_stopsAtFront hstop
  · rw [Sequence.getElem?_fill, Sequence.rangeEnd_of_stopsAtFront hstop]

/-- Of a range counted from the end, a slice takes the very item that a fill overwrites. Of a range
that ends at the front, a slice takes nothing and a fill overwrites every item. -/
theorem fill_overwrites_selected_front :
    (∃ w, (ListFunction.slice).run (Engine.direct Config.standard) (fun _ _ _ => pure .null) 0
          onlyList .undefined [.integer (-2), .integer (-1)]
          (World.ofItems [.integer 1, .integer 2, .integer 3]) = .ok (.array ⟨0⟩) w ∧
        w.arrays.get? ⟨0⟩ = some [.integer 2]) ∧
      (∃ (left : List Value) (w : World), (ListFunction.fill).run (Engine.direct Config.standard)
          (fun _ _ _ => pure .null) 0 onlyList .undefined
          [.integer 7, .integer (-2), .integer (-1)]
          (World.ofItems [.integer 1, .integer 2, .integer 3]) = .ok .undefined w ∧
        w.list? onlyList = some left.toArray ∧ left.length = 3 ∧
        left[0]? = some (.integer 1) ∧ left[1]? = some (.integer 7) ∧
        left[2]? = some (.integer 3)) ∧
      Sequence.selected [.integer 0, .integer 0] 3 = [] ∧
      ∃ (left : List Value) (w : World), (ListFunction.fill).run (Engine.direct Config.standard)
          (fun _ _ _ => pure .null) 0 onlyList .undefined [.integer 7, .integer 0, .integer 0]
          (World.ofItems [.integer 1, .integer 2, .integer 3]) = .ok .undefined w ∧
        w.list? onlyList = some left.toArray ∧ left.length = 3 ∧
        left[0]? = some (.integer 7) ∧ left[1]? = some (.integer 7) ∧
        left[2]? = some (.integer 7) := by
  have hlist : (World.ofItems [.integer 1, .integer 2, .integer 3]).list? onlyList =
    some [.integer 1, .integer 2, .integer 3].toArray := rfl
  have hruns (range : List Script.Value) :=
    fill_overwrites_selected (Engine.direct Config.standard) (fun _ _ _ => pure .null) 0 onlyList
      .undefined (.integer 7) range hlist (by decide) (by decide) rfl
  obtain ⟨hslice, left, w, -, hrun, hleft, hlength, hitems, -⟩ :=
    hruns [.integer (-2), .integer (-1)]
  obtain ⟨-, left', w', -, hrun', hleft', hlength', -, hfront⟩ := hruns [.integer 0, .integer 0]
  obtain ⟨hnone, hitems'⟩ := hfront (by decide)
  have hitems := hitems (by decide)
  exact ⟨⟨_, hslice, rfl⟩,
    ⟨left, w, hrun, hleft, hlength, hitems 0, hitems 1, hitems 2⟩, hnone,
    left', w', hrun', hleft', hlength', hitems' 0, hitems' 1, hitems' 2⟩

end Membrane
