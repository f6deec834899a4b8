import Membrane.Arguments

/-!
# Operations on sequences

The list functions as functions of the items and the arguments, where no callback and no crossing is
involved.

Source: specification, section 4.3, list semantics, and section 11.

## Main definitions

* `Sequence.itemIndex?`: the index of an existing item, counted from either end.
* `Sequence.fill`, `Sequence.copyWithin`: items overwritten in place.
* `Sequence.slice`, `Sequence.splice?`: part of the items, and part of them replaced.
* `Sequence.searchForward`, `Sequence.searchBackward`: where a value is found.
-/

namespace Membrane.Sequence

open Host (Value)

/-- The index of an item, counted from the end if negative, or `none` outside the sequence. -/
def itemIndex? (i : Int32) (length : Nat) : Option Nat :=
  let n := if i.toInt < 0 then i.toInt + length else i.toInt
  if 0 ≤ n ∧ n < length then some n.toNat else none

/-- The end of a range argument: zero stands for the end of the sequence. -/
def rangeEnd (args : List Script.Value) (i length : Nat) : Nat :=
  match resolveIndex (Arguments.int args i 0) length with
  | 0 => length
  | n => n

/-- The items from `start` to before `stop`. -/
def between (items : List Value) (start stop : Nat) : List Value :=
  (items.drop start).take (stop - start)

/-- The items with those from `start` to before `stop` replaced by copies of a value. -/
def overwrite (items : List Value) (v : Value) (start stop : Nat) : List Value :=
  if start < stop then items.take start ++ List.replicate (stop - start) v ++ items.drop stop
  else items

/-- Fills the range given by the second and third argument. -/
def fill (items : List Value) (v : Value) (args : List Script.Value) : List Value :=
  let start := resolveIndex (Arguments.int args 1 0) items.length
  overwrite items v start (rangeEnd args 2 items.length)

/-- The items with those from `start` to before `stop` copied to `target` and on, as far as the
sequence reaches. -/
def moveBlock (items : List Value) (target start stop : Nat) : List Value :=
  if target < items.length && start < items.length && start < stop then
    let count := min (stop - start) (items.length - target)
    items.take target ++ (items.drop start).take count ++ items.drop (target + count)
  else items

/-- Copies the range given by the second and third argument to the place given by the first. Without
arguments nothing is copied. -/
def copyWithin (items : List Value) (args : List Script.Value) : List Value :=
  if args.isEmpty then items
  else
    let target := resolveIndex (Arguments.int args 0 0) items.length
    let start := resolveIndex (Arguments.int args 1 0) items.length
    moveBlock items target start (rangeEnd args 2 items.length)

/-- The items of the range given by the first two arguments. -/
def slice (items : List Value) (args : List Script.Value) : List Value :=
  let start := resolveIndex (Arguments.int args 0 0) items.length
  let stop := resolveIndex (Arguments.int args 1 (lengthInt32 items.length)) items.length
  between items start stop

/-- The start of a splice: a negative argument counts from the end, down to the front. -/
def spliceStart (args : List Script.Value) (length : Nat) : Int :=
  let start := (Arguments.int args 0 0).toInt
  if start < 0 then max (start + length) 0 else start

/-- How many items a splice removes, of those that remain from its start: all of them if the second
argument is missing. -/
def spliceCount (args : List Script.Value) (remaining : Nat) : Nat :=
  match args[1]? with
  | none => remaining
  | some v => min v.toInt32.toInt.toNat remaining

/-- Removes items from a start and puts others in their place: the removed items and the sequence
left. The start must lie within the sequence; without arguments nothing happens. -/
def splice? (items : List Value) (args : List Script.Value) (inserted : List Value) :
    Except Fault (List Value × List Value) :=
  if args.isEmpty then .ok ([], items)
  else
    let start := spliceStart args items.length
    if items.length ≤ start then .error (.startOutOfRange start)
    else
      let start := start.toNat
      let count := spliceCount args (items.length - start)
      .ok ((items.drop start).take count,
        items.take start ++ inserted ++ items.drop (start + count))

/-- The first index, not before the start given by the second argument, at which a value is
found. -/
def searchForward (items : List Value) (v : Value) (args : List Script.Value) : Option Nat :=
  let start := resolveIndex (Arguments.int args 1 0) items.length
  ((items.drop start).findIdx? (· == v)).map (· + start)

/-- The last index, not after the start given by the second argument, at which a value is found. A
missing start is the last item. -/
def searchBackward (items : List Value) (v : Value) (args : List Script.Value) : Option Nat :=
  if items.isEmpty then none
  else
    let start := (Arguments.int args 1 (lengthInt32 (items.length - 1))).toInt
    let start := if start < 0 then start + items.length else start
    if start < 0 then none
    else
      let candidates := items.take (min start.toNat (items.length - 1) + 1)
      (candidates.reverse.findIdx? (· == v)).map fun i => candidates.length - 1 - i

end Membrane.Sequence
