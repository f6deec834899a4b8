import Membrane.Proofs.Refusal
import Membrane.Proofs.WordArithmetic

/-!
# Items replaced in a list

One function of lists takes out a number of items from a start on, puts others in their place and
hands over what it took out. No item is lost or made up on the way: with the removed items put back,
the list is what it was. The start may lie anywhere before the end of the list, and is an error
elsewhere. The number of items may be anything, and is brought into bounds. So no argument leads to
a range outside the list, or to a number that a machine word cannot hold.

## Main definitions

* `Sequence.SpliceRange`: the range that arguments give.
* `Sequence.Spliced`: that a range was replaced.
* `Sequence.spliceByWords?`: the function in steps of machine words.

## Main results

* `Sequence.splice?_eq_error_iff`, `Sequence.spliced_of_splice?`: when there is an error, and what
  is done otherwise.
* `Sequence.spliceByWords?_eq_some`: all steps succeed.
* `splice_conserves_items`: what the function does to a list.
-/

namespace Membrane

open Host (Value)
open Prototype (ListFunction)

namespace Sequence

variable {items inserted removed left : List Value} {args : List Script.Value}
  {length start count : Nat}

/-! ### The items after a splice -/

/-- The range that the arguments of a splice give in a sequence: the start comes before the end, and
as many items follow as the second argument says, brought into bounds, or all of them without one.
-/
structure SpliceRange (args : List Script.Value) (length start count : Nat) : Prop where
  /-- The first argument is the start. -/
  start_eq : (start : Int) = spliceStart args length
  /-- The start is the index of an item. -/
  start_lt : start < length
  /-- Without a second argument, the range goes up to the end. -/
  count_of_none : args[1]? = none → start + count = length
  /-- A second argument is brought into bounds. -/
  count_of_some : ∀ v, args[1]? = some v →
    (count : Int) = max 0 (min v.toInt32.toInt ((length : Int) - start))

/-- Items from a start on have been taken out, and others put in their place. -/
structure Spliced (items inserted : List Value) (start count : Nat) (removed left : List Value) :
    Prop where
  /-- The range lies in the sequence. -/
  bound : start + count ≤ items.length
  /-- What was taken out are the items of the range. -/
  removed_eq : removed = (items.drop start).take count
  /-- What is left has the inserted items in their place. -/
  left_eq : left = items.take start ++ inserted ++ items.drop (start + count)
  /-- With the removed items in place of the inserted ones, the sequence is what it was. -/
  restored : left.take start ++ removed ++ left.drop (start + inserted.length) = items

/-- To replace a range by other items and back again changes nothing. -/
theorem spliced (items inserted : List Value) (h : start + count ≤ items.length) :
    Spliced items inserted start count ((items.drop start).take count)
      (items.take start ++ inserted ++ items.drop (start + count)) where
  bound := h
  removed_eq := rfl
  left_eq := rfl
  restored := by
    have hstart : (items.take start).length = start := List.length_take_of_le (by omega)
    have hfront : (items.take start ++ inserted ++ items.drop (start + count)).take start =
        items.take start := by
      rw [List.append_assoc, List.take_left' hstart]
    have hback : (items.take start ++ inserted ++ items.drop (start + count)).drop
        (start + inserted.length) = items.drop (start + count) :=
      List.drop_left' (by rw [List.length_append, hstart])
    rw [hfront, hback, List.append_assoc, ← List.drop_drop, List.take_append_drop,
      List.take_append_drop]

theorem spliceStart_nonneg (args : List Script.Value) (length : Nat) :
    0 ≤ spliceStart args length := by
  unfold spliceStart
  dsimp only
  split <;> omega

theorem spliceCount_le (args : List Script.Value) (remaining : Nat) :
    spliceCount args remaining ≤ remaining := by
  unfold spliceCount
  split
  · exact Nat.le_refl _
  · exact Nat.min_le_right _ _

/-- The number of items that a second argument gives, brought into bounds. -/
theorem spliceCount_of_some {v : Script.Value} (h : args[1]? = some v) (remaining : Nat) :
    (spliceCount args remaining : Int) = max 0 (min v.toInt32.toInt remaining) := by
  simp only [spliceCount, h]
  omega

/-- Before the end of a sequence, the arguments give a range in it. -/
theorem spliceRange (h : spliceStart args length < length) :
    SpliceRange args length (spliceStart args length).toNat
      (spliceCount args (length - (spliceStart args length).toNat)) := by
  have hstart : ((spliceStart args length).toNat : Int) = spliceStart args length :=
    Int.toNat_of_nonneg (spliceStart_nonneg args length)
  refine ⟨hstart, by omega, fun hnone => ?_, fun v hv => ?_⟩
  · simp only [spliceCount, hnone]
    omega
  · rw [spliceCount_of_some hv]
    omega

theorem splice?_of_lt (hargs : args ≠ []) (h : spliceStart args items.length < items.length) :
    splice? items args inserted =
      .ok ((items.drop (spliceStart args items.length).toNat).take
          (spliceCount args (items.length - (spliceStart args items.length).toNat)),
        items.take (spliceStart args items.length).toNat ++ inserted ++
          items.drop ((spliceStart args items.length).toNat +
            spliceCount args (items.length - (spliceStart args items.length).toNat))) := by
  simp [splice?, hargs, Int.not_le.2 h]

/-- There is an error if there are arguments and the start is not before the end, and nowhere
else. -/
theorem splice?_eq_error_iff {f : Fault} :
    splice? items args inserted = .error f ↔
      args ≠ [] ∧ items.length ≤ spliceStart args items.length ∧
        f = .startOutOfRange (spliceStart args items.length) := by
  by_cases hargs : args = []
  · subst hargs
    simp [splice?]
  by_cases hstart : items.length ≤ spliceStart args items.length
  · rw [splice?_of_length_le hargs hstart]
    simp [hargs, hstart, eq_comm]
  · rw [splice?_of_lt hargs (Int.not_le.1 hstart)]
    simp [hstart]

/-- Where there is no error, the range that the arguments give is replaced. -/
theorem spliced_of_splice? (hargs : args ≠ [])
    (h : splice? items args inserted = .ok (removed, left)) :
    ∃ start count, SpliceRange args items.length start count ∧
      Spliced items inserted start count removed left := by
  by_cases hstart : items.length ≤ spliceStart args items.length
  · rw [splice?_of_length_le hargs hstart] at h
    cases h
  · have hrange := spliceRange (Int.not_le.1 hstart)
    rw [splice?_of_lt hargs (Int.not_le.1 hstart)] at h
    cases h
    refine ⟨_, _, hrange, spliced items inserted ?_⟩
    have hcount := spliceCount_le args (items.length - (spliceStart args items.length).toNat)
    have hlt := hrange.start_lt
    omega

/-! ### Steps in machine words -/

/-- The start of a splice, in signed words. -/
def spliceStart? (args : List Script.Value) (length : Int) : Option Int :=
  let start := (Arguments.int args 0 0).toInt
  if start < 0 then (Word.signed? (start + length)).map (max · 0) else some start

/-- The number of items that a splice takes out of those that remain, in signed words. -/
def spliceCount? (args : List Script.Value) (remaining : Int) : Option Int :=
  match args[1]? with
  | none => some remaining
  | some v => Word.clamp? v.toInt32.toInt 0 remaining

/-- Replaces a number of items from a start on, with the bounds of the range in unsigned words. -/
def replaceByWords? (items inserted : List Value) (start count : Int) :
    Option (List Value × List Value) := do
  let start ← Word.unsigned? start
  let count ← Word.unsigned? count
  let stop ← Word.unsigned? (start + count)
  let removed ← Word.slice? items start stop
  return (removed, items.take start ++ inserted ++ items.drop stop)

/-- Removes items and puts others in their place, with lengths and indices in machine words. -/
def spliceByWords? (items : List Value) (args : List Script.Value) (inserted : List Value) :
    Option (Except Fault (List Value × List Value)) := do
  if args.isEmpty then return .ok ([], items)
  let length ← Word.signed? items.length
  let start ← spliceStart? args length
  if length ≤ start then return .error (.startOutOfRange start)
  let remaining ← Word.signed? (length - start)
  let count ← spliceCount? args remaining
  return .ok (← replaceByWords? items inserted start count)

theorem spliceStart?_eq_some (hlength : length < 9223372036854775808) (args : List Script.Value) :
    spliceStart? args length = some (spliceStart args length) := by
  have hlo := (Arguments.int args 0 0).le_toInt
  unfold spliceStart? spliceStart
  dsimp only
  split
  · rw [Word.signed?_eq_some (by omega) (by omega), Option.map_some]
  · rfl

theorem spliceCount?_eq_some (args : List Script.Value) (remaining : Nat) :
    spliceCount? args remaining = some (spliceCount args remaining : Int) := by
  cases hv : args[1]? with
  | none => simp only [spliceCount?, spliceCount, hv]
  | some v =>
    rw [spliceCount_of_some hv, spliceCount?, hv]
    exact Word.clamp?_eq_some _ (by omega)

/-- A range in the sequence is replaced. -/
theorem replaceByWords?_eq_some (hlength : items.length < 9223372036854775808)
    (inserted : List Value) (h : start + count ≤ items.length) :
    replaceByWords? items inserted start count =
      some ((items.drop start).take count,
        items.take start ++ inserted ++ items.drop (start + count)) := by
  have hstart : Word.unsigned? start = some start := Word.unsigned?_natCast (by omega)
  have hcount : Word.unsigned? count = some count := Word.unsigned?_natCast (by omega)
  have hstop : Word.unsigned? (start + count) = some (start + count) := by
    rw [← Int.natCast_add]
    exact Word.unsigned?_natCast (by omega)
  have hslice : Word.slice? items start (start + count) = some ((items.drop start).take count) := by
    rw [Word.slice?_eq_some (Nat.le_add_right _ _) h, between, Nat.add_sub_cancel_left]
  unfold replaceByWords?
  rw [Word.bind_of_some hstart, Word.bind_of_some hcount, Word.bind_of_some hstop,
    Word.bind_of_some hslice]
  rfl

/-- Every step in machine words succeeds, for all arguments. -/
theorem spliceByWords?_eq_some (hlength : items.length < 9223372036854775808)
    (args : List Script.Value) (inserted : List Value) :
    spliceByWords? items args inserted = some (splice? items args inserted) := by
  unfold spliceByWords?
  by_cases hargs : args = []
  · subst hargs
    rfl
  rw [if_neg (by simpa using hargs),
    Word.bind_of_some (Word.signed?_eq_some (by omega) (by omega)),
    Word.bind_of_some (spliceStart?_eq_some hlength args)]
  by_cases hstart : items.length ≤ spliceStart args items.length
  · rw [if_pos hstart, splice?_of_length_le hargs hstart]
    rfl
  · have hrange := spliceRange (Int.not_le.1 hstart)
    have hcount := spliceCount_le args (items.length - (spliceStart args items.length).toNat)
    have hlt := hrange.start_lt
    rw [if_neg hstart, splice?_of_lt hargs (Int.not_le.1 hstart)]
    generalize (spliceStart args items.length).toNat = start at hrange hlt hcount ⊢
    rw [← hrange.start_eq, Word.bind_of_some (Word.signed?_eq_some (by omega) (by omega)),
      ← Int.ofNat_sub (Nat.le_of_lt hlt), Word.bind_of_some (spliceCount?_eq_some args _),
      Word.bind_of_some (replaceByWords?_eq_some hlength inserted (by omega))]
    rfl

end Sequence

/-! ### Runs -/

/-- The list function that replaces items does nothing without arguments. Otherwise it fails just if
its start, which a negative argument counts from the end as far as the front, is not before the end
of the list; it names that start then, and the list is what it was. If it does not fail, the range
is what the arguments give, brought into bounds, its items are handed over in their order, and the
inserted ones are put in their place, so that the list is restored if they are exchanged again. For
every list whose length fits in a signed word, all steps in machine words succeed, with this very
result. -/
theorem splice_conserves_items (eng : Engine) (invoke : Invoke) (steps : Nat) (target : Value)
    (this : Script.Value) (args : List Script.Value) (items inserted : List Value) :
    (args = [] → Sequence.splice? items args inserted = .ok ([], items)) ∧
    (∀ f, Sequence.splice? items args inserted = .error f ↔
      args ≠ [] ∧ items.length ≤ Sequence.spliceStart args items.length ∧
        f = .startOutOfRange (Sequence.spliceStart args items.length)) ∧
    (∀ removed left, args ≠ [] → Sequence.splice? items args inserted = .ok (removed, left) →
      ∃ start count, Sequence.SpliceRange args items.length start count ∧
        Sequence.Spliced items inserted start count removed left) ∧
    (items.length < 9223372036854775808 →
      Sequence.spliceByWords? items args inserted =
        some (Sequence.splice? items args inserted)) ∧
    ∀ w w₁ : World, w.list? target = some items.toArray →
      eng.toHostAll (args.drop 2) w = .ok inserted w₁ →
      (∀ f, Sequence.splice? items args inserted = .error f →
        (ListFunction.splice).run eng invoke steps target this args w = .error (.fault f) w₁ ∧
          f.constructorName = "RangeError" ∧
          f.message = "Start " ++ toString (Sequence.spliceStart args items.length) ++
            " is out of range" ∧
          w₁.list? target = some items.toArray) ∧
      ∀ removed left, Sequence.splice? items args inserted = .ok (removed, left) →
        ∃ w₂ : World, w₂ = w₁.putData target (.list left.toArray) ∧
          (ListFunction.splice).run eng invoke steps target this args w =
            eng.toScriptArray removed w₂ ∧
          w₂.list? target = some left.toArray := by
  refine ⟨fun hargs => ?_, fun f => Sequence.splice?_eq_error_iff,
    fun removed left hargs => Sequence.spliced_of_splice? hargs,
    fun hlength => Sequence.spliceByWords?_eq_some hlength args inserted,
    fun w w₁ hlist hinserted => ?_⟩
  · subst hargs
    rfl
  · have hadds := eng.within_toHostAll (args.drop 2) w
    rw [hinserted] at hadds
    have hlist₁ : w₁.list? target = some items.toArray := hadds.list? hlist
    refine ⟨fun f hf => ?_, fun removed left hok => ⟨_, rfl, ?_, World.list?_putData hlist₁ _⟩⟩
    · obtain ⟨-, -, rfl⟩ := Sequence.splice?_eq_error_iff.1 hf
      exact ⟨run_of_undivided rfl hlist₁ hinserted hf, rfl, rfl, hlist₁⟩
    · have hdivision : Division eng .splice args items w inserted removed left w₁ :=
        ⟨hinserted, hok⟩
      exact hdivision.run_eq rfl hlist

/-- One of three items is replaced, from a start counted from the end, and a start at the end is an
error. -/
theorem splice_conserves_items_middle :
    (∃ w, (ListFunction.splice).run (Engine.direct Config.standard) (fun _ _ _ => pure .null) 0
          onlyList .undefined [.integer (-2), .integer 1, .integer 7]
          (World.ofItems [.integer 1, .integer 2, .integer 3]) = .ok (.array ⟨0⟩) w ∧
        w.arrays.get? ⟨0⟩ = some [.integer 2] ∧
        w.list? onlyList = some #[.integer 1, .integer 7, .integer 3]) ∧
      ∃ w, (ListFunction.splice).run (Engine.direct Config.standard) (fun _ _ _ => pure .null) 0
          onlyList .undefined [.integer 3]
          (World.ofItems [.integer 1, .integer 2, .integer 3]) =
            .error (.fault (.startOutOfRange 3)) w ∧
        w.list? onlyList = some #[.integer 1, .integer 2, .integer 3] := by
  have hlist : (World.ofItems [.integer 1, .integer 2, .integer 3]).list? onlyList =
    some [.integer 1, .integer 2, .integer 3].toArray := rfl
  have hruns (args : List Script.Value) (inserted : List Value) :=
    (splice_conserves_items (Engine.direct Config.standard) (fun _ _ _ => pure .null) 0 onlyList
      .undefined args [.integer 1, .integer 2, .integer 3] inserted).2.2.2.2 _
        (World.ofItems [.integer 1, .integer 2, .integer 3]) hlist
  obtain ⟨w, hw, hreplaced, -⟩ :=
    (hruns [.integer (-2), .integer 1, .integer 7] [.integer 7] rfl).2
      [.integer 2] [.integer 1, .integer 7, .integer 3] rfl
  subst hw
  obtain ⟨hfails, -, -, hleft⟩ := (hruns [.integer 3] [] rfl).1 (.startOutOfRange 3) rfl
  exact ⟨⟨_, hreplaced, rfl, rfl⟩, _, hfails, hleft⟩

end Membrane
