import Membrane.Proofs.WordArithmetic

/-!
# Blocks moved within a list

One function of lists copies the items of a range to another place in the list, where the two places
may overlap. It works from the items as they were when it started: it determines the block that fits
between its new place and the end, takes it from there, and writes it item by item. So each item of
the new place is the one that stood in the block, whichever of the two places comes first, and the
steps need no number that a machine word cannot hold.

## Main definitions

* `Sequence.BlockMoved`: that a block was moved, item by item.
* `Sequence.writeFrom`, `Sequence.copyWithinByWords?`: the function in steps of machine words.

## Main results

* `Sequence.getElem?_moveBlock`, `Sequence.blockMoved_moveBlock`: the items after a move.
* `Sequence.copyWithinByWords?_eq_some`: all steps succeed.
* `copyWithin_moves_block`: what the function does to a list.
-/

namespace Membrane

open Host (Value)
open Prototype (ListFunction)

namespace Sequence

variable {items left live block : List Value} {target start stop : Nat}

/-! ### The items after a move -/

/-- The items from one index to before another have been copied to a third one and on, as far as the
sequence reaches. Nothing is moved if there are none, or the place for them is the end. -/
structure BlockMoved (items : List Value) (target start stop : Nat) (left : List Value) :
    Prop where
  /-- There are as many items as before. -/
  length_eq : left.length = items.length
  /-- Where the block was put, there are the items that it had before. -/
  copied : target < items.length → start < items.length → start < stop →
    ∀ k < min (stop - start) (items.length - target), left[target + k]? = items[start + k]?
  /-- All other items are what they were. -/
  others : target < items.length → start < items.length → start < stop →
    ∀ i, i < target ∨ target + min (stop - start) (items.length - target) ≤ i →
      left[i]? = items[i]?
  /-- Without a block, or a place for it, nothing has changed. -/
  unmoved : ¬(target < items.length ∧ start < items.length ∧ start < stop) → left = items

theorem moveBlock_of_not (h : ¬(target < items.length ∧ start < items.length ∧ start < stop)) :
    moveBlock items target start stop = items := by
  unfold moveBlock
  rw [if_neg (by simpa [and_assoc] using h)]

theorem moveBlock_of_lt (htarget : target < items.length) (hstart : start < items.length)
    (horder : start < stop) :
    moveBlock items target start stop =
      items.take target ++
        (items.drop start).take (min (stop - start) (items.length - target)) ++
        items.drop (target + min (stop - start) (items.length - target)) := by
  unfold moveBlock
  rw [if_pos (by simp [htarget, hstart, horder])]

/-- Each item of the new place is the one that stood in the block, and all others stay. -/
theorem getElem?_moveBlock (htarget : target < items.length) (horder : start < stop)
    (hstop : stop ≤ items.length) (i : Nat) :
    (moveBlock items target start stop)[i]? =
      if target ≤ i ∧ i < target + min (stop - start) (items.length - target) then
        items[start + (i - target)]?
      else items[i]? := by
  rw [moveBlock_of_lt htarget (by omega) horder]
  simp only [List.getElem?_append, List.length_append, List.length_take, List.length_drop,
    List.getElem?_take, List.getElem?_drop]
  grind

theorem length_moveBlock (hstop : stop ≤ items.length) :
    (moveBlock items target start stop).length = items.length := by
  by_cases hmoves : target < items.length ∧ start < items.length ∧ start < stop
  · rw [moveBlock_of_lt hmoves.1 hmoves.2.1 hmoves.2.2]
    simp only [List.length_append, List.length_take, List.length_drop]
    omega
  · rw [moveBlock_of_not hmoves]

/-- A block whose end lies in the sequence is moved. -/
theorem blockMoved_moveBlock (hstop : stop ≤ items.length) :
    BlockMoved items target start stop (moveBlock items target start stop) where
  length_eq := length_moveBlock hstop
  copied htarget _ horder k hk := by
    rw [getElem?_moveBlock htarget horder hstop, if_pos (by omega), Nat.add_sub_cancel_left]
  others htarget _ horder i hi := by
    rw [getElem?_moveBlock htarget horder hstop, if_neg (by omega)]
  unmoved := moveBlock_of_not

/-- A sequence that is copied onto itself stays what it is. -/
theorem moveBlock_whole (items : List Value) : moveBlock items 0 0 items.length = items := by
  by_cases h : 0 < items.length
  · simp [moveBlock_of_lt h h h]
  · exact moveBlock_of_not fun hmoves => h hmoves.1

/-- The function moves the block that its arguments give. Without any, that is all items, which go
to where they are. -/
theorem copyWithin_eq (items : List Value) (args : List Script.Value) :
    copyWithin items args =
      moveBlock items (Arguments.place args 0 items.length) (Arguments.place args 1 items.length)
        (rangeEnd args 2 items.length) := by
  unfold copyWithin
  simp only [resolveIndex_int]
  split
  · next hargs =>
    obtain rfl := List.isEmpty_iff.1 hargs
    -- All places are the front, and the front as an end stands for the end of the sequence.
    have hplace (i : Nat) : Arguments.place [] i items.length = 0 := relative_zero items.length
    rw [rangeEnd_eq, hplace, hplace, hplace, if_pos rfl, moveBlock_whole]
  · rfl

/-! ### Steps in machine words -/

/-- The items of a block written one after the other, the first of them at a given index. -/
def writeFrom (live : List Value) (target : Nat) : List Value → List Value
  | [] => live
  | v :: block => writeFrom (live.set target v) (target + 1) block

/-- A block that fits takes the place of as many items. -/
theorem writeFrom_eq (h : target + block.length ≤ live.length) :
    writeFrom live target block =
      live.take target ++ block ++ live.drop (target + block.length) := by
  induction block generalizing live target with
  | nil => simp [writeFrom]
  | cons v block ih =>
    rw [List.length_cons] at h
    have hset : (live.set target v).take (target + 1) = live.take target ++ [v] := by
      rw [List.take_set, List.take_succ_eq_append_getElem (by omega), List.set_append_right]
      · simp [Nat.min_eq_left (by omega : target ≤ live.length)]
      · exact List.length_take_le _ _
    rw [writeFrom, ih (by rw [List.length_set]; omega), hset,
      List.drop_set_of_lt (by omega), List.length_cons, Nat.add_right_comm, ← Nat.add_assoc]
    simp

/-- The end of a block that is to fit between its new place and the end of the sequence. -/
def fittingEnd? (length target start stop : Nat) : Option Nat := do
  let sum ← Word.unsigned? (target + stop)
  let reach ← Word.unsigned? (sum - start)
  if length < reach then
    let sum ← Word.unsigned? (length + start)
    Word.unsigned? (sum - target)
  else return stop

theorem fittingEnd?_eq_some {length : Nat} (hlength : length < 9223372036854775808)
    (htarget : target < length) (horder : start < stop) (hstop : stop ≤ length) :
    fittingEnd? length target start stop =
      some (start + min (stop - start) (length - target)) := by
  unfold fittingEnd?
  rw [Word.bind_of_some (Word.unsigned?_eq_some (by omega) (by omega)),
    Word.bind_of_some (Word.unsigned?_eq_some (by omega) (by omega))]
  split
  · rw [Word.bind_of_some (Word.unsigned?_eq_some (by omega) (by omega)),
      Word.unsigned?_eq_some (by omega) (by omega)]
    congr 1
    omega
  · refine congrArg some ?_
    omega

/-- Moves a block with the bounds in machine words. It is taken from the items as they were and
written item by item. -/
def moveBlockByWords? (items : List Value) (target start stop : Nat) : Option (List Value) := do
  let stop ← fittingEnd? items.length target start stop
  let block ← Word.slice? items start stop
  return writeFrom items target block

/-- A block whose end lies in the sequence is moved. -/
theorem moveBlockByWords?_eq_some (hlength : items.length < 9223372036854775808)
    (htarget : target < items.length) (horder : start < stop) (hstop : stop ≤ items.length) :
    moveBlockByWords? items target start stop = some (moveBlock items target start stop) := by
  have hblock : (between items start
      (start + min (stop - start) (items.length - target))).length =
        min (stop - start) (items.length - target) := by
    simp only [between, List.length_take, List.length_drop]
    omega
  unfold moveBlockByWords?
  rw [Word.bind_of_some (fittingEnd?_eq_some hlength htarget horder hstop),
    Word.bind_of_some (Word.slice?_eq_some (by omega) (by omega)),
    moveBlock_of_lt htarget (by omega) horder]
  refine congrArg some ?_
  rw [writeFrom_eq (by omega), hblock, between, Nat.add_sub_cancel_left]

/-- Copies a range of items within a sequence, with lengths and indices in machine words. -/
def copyWithinByWords? (items : List Value) (args : List Script.Value) : Option (List Value) := do
  if items.isEmpty || args.isEmpty then return items
  let target ← Word.relative? (Arguments.int args 0 0) items.length
  let start ← Word.relative? (Arguments.int args 1 0) items.length
  let stop ← Word.relative? (Arguments.int args 2 0) items.length
  let stop := if stop = 0 then items.length else stop
  if target < items.length && start < items.length && start < stop then
    moveBlockByWords? items target start stop
  else return items

/-- Every step in machine words succeeds, for all arguments. -/
theorem copyWithinByWords?_eq_some (hlength : items.length < 9223372036854775808)
    (args : List Script.Value) :
    copyWithinByWords? items args = some (copyWithin items args) := by
  by_cases hempty : items.isEmpty || args.isEmpty
  · have hsame : copyWithin items args = items := by
      unfold copyWithin
      obtain hitems | hargs := Bool.or_eq_true_iff.1 hempty
      · simp [List.isEmpty_iff.1 hitems, moveBlock]
      · rw [if_pos hargs]
    rw [copyWithinByWords?, if_pos hempty, hsame]
    rfl
  · rw [copyWithin_eq, copyWithinByWords?, if_neg hempty,
      Word.bind_of_some (Word.relative?_int args 0 hlength),
      Word.bind_of_some (Word.relative?_int args 1 hlength),
      Word.bind_of_some (Word.relative?_int args 2 hlength), ← rangeEnd_eq]
    dsimp only
    split
    · next hmoves =>
      simp only [Bool.and_eq_true, decide_eq_true_eq] at hmoves
      exact moveBlockByWords?_eq_some hlength hmoves.1.1 hmoves.2 (rangeEnd_le args 2 items.length)
    · next hmoves =>
      rw [moveBlock_of_not (by simpa [and_assoc] using hmoves)]
      rfl

end Sequence

/-- The list function that copies items within the list returns its receiver and moves a block as
its arguments say. The first argument gives the new place, the second the start of the block and the
third its end, the front being the position that a missing one gives. An end at the front stands for
the end of the list. Each item of the new place is the one that the block had before, and all others
stay, as does their number; if there is no block or no place for it, nothing changes. For every list
whose length fits in a signed word, all steps in machine words succeed, with this very result. -/
theorem copyWithin_moves_block (eng : Engine) (invoke : Invoke) (steps : Nat) (target : Value)
    (this : Script.Value) (args : List Script.Value) {items : List Value} {w : World}
    (hlist : w.list? target = some items.toArray) :
    ∃ (left : List Value) (w₁ : World), w₁ = w.putData target (.list left.toArray) ∧
      (ListFunction.copyWithin).run eng invoke steps target this args w = .ok this w₁ ∧
      w₁.list? target = some left.toArray ∧
      Sequence.BlockMoved items (Arguments.place args 0 items.length)
        (Arguments.place args 1 items.length)
        (if Arguments.place args 2 items.length = 0 then items.length
          else Arguments.place args 2 items.length) left ∧
      (items.length < 9223372036854775808 →
        Sequence.copyWithinByWords? items args = some left) := by
  refine ⟨Sequence.copyWithin items args, _, rfl, ?_, World.list?_putData hlist _, ?_,
    fun hlength => Sequence.copyWithinByWords?_eq_some hlength args⟩
  · exact (Run.bind_of_ok (listValues_eq_ok hlist)).trans
      (Run.bind_of_ok (putItems_apply target _ w))
  · rw [Sequence.copyWithin_eq, ← Sequence.rangeEnd_eq]
    exact Sequence.blockMoved_moveBlock (Sequence.rangeEnd_le args 2 items.length)

/-- The first three items of five are copied over the second to the fourth, which they overlap. -/
theorem copyWithin_moves_block_overlapping :
    ∃ (left : List Value) (w : World),
      (ListFunction.copyWithin).run (Engine.direct Config.standard) (fun _ _ _ => pure .null) 0
          onlyList .undefined [.integer 1, .integer (-5), .integer 3]
          (World.ofItems [.integer 1, .integer 2, .integer 3, .integer 4, .integer 5]) =
        .ok .undefined w ∧
      w.list? onlyList = some left.toArray ∧ left.length = 5 ∧
      (left[0]? = some (.integer 1) ∧ left[4]? = some (.integer 5)) ∧
      left[1]? = some (.integer 1) ∧ left[2]? = some (.integer 2) ∧
      left[3]? = some (.integer 3) := by
  have hlist : (World.ofItems [.integer 1, .integer 2, .integer 3, .integer 4, .integer 5]).list?
    onlyList = some [.integer 1, .integer 2, .integer 3, .integer 4, .integer 5].toArray := rfl
  obtain ⟨left, w, -, hrun, hleft, hmoved, -⟩ :=
    copyWithin_moves_block (Engine.direct Config.standard) (fun _ _ _ => pure .null) 0 onlyList
      .undefined [.integer 1, .integer (-5), .integer 3] hlist
  have hcopied := hmoved.copied (by decide) (by decide) (by decide)
  have hothers := hmoved.others (by decide) (by decide) (by decide)
  exact ⟨left, w, hrun, hleft, hmoved.length_eq,
    ⟨hothers 0 (by decide), hothers 4 (by decide)⟩,
    hcopied 0 (by decide), hcopied 1 (by decide), hcopied 2 (by decide)⟩

end Membrane
