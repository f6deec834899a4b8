import Membrane.Proofs.Ranges

/-!
# Positions in machine words

Lengths and indices are unsigned words of 64 bits, and positions that may be negative are resolved
in signed ones. Here the same is computed with words that may turn out too small: a number that no
word holds has no result, nor has a range whose bounds are out of order or beyond the sequence. For
sequences whose length fits in a signed word, which are all that fit in memory, no step is without a
result, and the results are those of the computation with numbers of any size.

## Main definitions

* `Word.unsigned?`, `Word.signed?`: a number as a word, if there is one.
* `Word.relative?`, `Word.clamp?`, `Word.slice?`: a position, a number brought into bounds, and the
  items of a range.

## Main results

* `Word.relative?_int`: the positions that arguments give.
* `Word.clamp?_eq_some`, `Word.slice?_eq_some`: what has to be in order.
-/

namespace Membrane.Word

open Host (Value)

/-- A step that has a result goes on with it. -/
theorem bind_of_some {α β : Type} {x : Option α} {a : α} (h : x = some a) (f : α → Option β) :
    x >>= f = f a := by
  rw [h]
  rfl

/-- A number as an unsigned word. -/
def unsigned? (n : Int) : Option Nat :=
  if 0 ≤ n ∧ n < 18446744073709551616 then some n.toNat else none

/-- A number as a signed word. -/
def signed? (n : Int) : Option Int :=
  if -9223372036854775808 ≤ n ∧ n < 9223372036854775808 then some n else none

theorem unsigned?_eq_some {n : Int} (hlo : 0 ≤ n) (hhi : n < 18446744073709551616) :
    unsigned? n = some n.toNat :=
  if_pos ⟨hlo, hhi⟩

/-- A length or an index that fits is itself. -/
theorem unsigned?_natCast {n : Nat} (h : n < 18446744073709551616) : unsigned? n = some n :=
  unsigned?_eq_some (by omega) (by omega)

theorem signed?_eq_some {n : Int} (hlo : -9223372036854775808 ≤ n)
    (hhi : n < 9223372036854775808) : signed? n = some n :=
  if_pos ⟨hlo, hhi⟩

/-- A position in a sequence of a given length, resolved in signed words. -/
def relative? (i : Int32) (length : Nat) : Option Nat := do
  let length ← signed? length
  if i.toInt < 0 then
    let shifted ← signed? (i.toInt + length)
    unsigned? (max shifted 0)
  else unsigned? (min i.toInt length)

/-- A number brought into bounds, which must be in order. -/
def clamp? (n lo hi : Int) : Option Int := if lo ≤ hi then some (max lo (min n hi)) else none

theorem clamp?_eq_some (n : Int) {lo hi : Int} (h : lo ≤ hi) :
    clamp? n lo hi = some (max lo (min n hi)) :=
  if_pos h

/-- The items of a range, whose bounds must be in order and in the sequence. -/
def slice? (items : List Value) (start stop : Nat) : Option (List Value) :=
  if start ≤ stop ∧ stop ≤ items.length then some (Sequence.between items start stop) else none

theorem slice?_eq_some {items : List Value} {start stop : Nat} (horder : start ≤ stop)
    (hbound : stop ≤ items.length) :
    slice? items start stop = some (Sequence.between items start stop) :=
  if_pos ⟨horder, hbound⟩

theorem relative?_eq_some (i : Int32) {length : Nat} (h : length < 9223372036854775808) :
    relative? i length = some (resolveIndex i length) := by
  have hlo := i.le_toInt
  have hhi := i.toInt_lt
  unfold relative? resolveIndex
  rw [bind_of_some (signed?_eq_some (by omega) (by omega))]
  split
  · rw [bind_of_some (signed?_eq_some (by omega) (by omega)),
      unsigned?_eq_some (by omega) (by omega)]
    congr 1
    omega
  · rw [unsigned?_eq_some (by omega) (by omega)]
    congr 1
    omega

/-- The positions that arguments give are found. -/
theorem relative?_int (args : List Script.Value) (i : Nat) {length : Nat}
    (h : length < 9223372036854775808) :
    relative? (Arguments.int args i 0) length = some (Arguments.place args i length) := by
  rw [relative?_eq_some _ h, resolveIndex_int]

end Membrane.Word
