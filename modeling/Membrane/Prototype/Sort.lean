/-!
# Merge sort with an effectful comparison

A list is sorted by merging runs of neighbours, first of single items, until one run is left. The
comparison may have effects or fail, so which items are compared, and in which order, is part of
what is defined: runs are merged from front to back, and of two items the left one is taken unless
it is greater than the right one.

Source: specification, section 4.3, `sort` and `toSorted`; section 7 for comparators that fail.

## Main definitions

* `mergeRuns`, `mergePairs`, `mergePasses`.
* `mergeSortBy`: the sort.
-/

namespace Membrane

variable {m : Type → Type} [Monad m] {α : Type}

/-- The merge of a run that starts with `x` and goes on with `xs`, given how `xs` merges. -/
def mergeHead (compare : α → α → m Ordering) (x : α) (xs : List α)
    (mergeRest : List α → m (List α)) : List α → m (List α)
  | [] => pure (x :: xs)
  | y :: ys => do
    if (← compare x y) = .gt then return y :: (← mergeHead compare x xs mergeRest ys)
    else return x :: (← mergeRest (y :: ys))

/-- The merge of two runs. -/
def mergeRuns (compare : α → α → m Ordering) : List α → List α → m (List α)
  | [] => pure
  | x :: xs => mergeHead compare x xs (mergeRuns compare xs)

/-- Merges each run with its neighbour; an odd run at the end stays. -/
def mergePairs (compare : α → α → m Ordering) : List (List α) → m (List (List α))
  | r :: s :: rest => do
    let merged ← mergeRuns compare r s
    return merged :: (← mergePairs compare rest)
  | runs => pure runs

/-- Merges neighbours until one run is left. The first argument bounds the number of passes; with as
many passes as runs it is never used up. -/
def mergePasses (compare : α → α → m Ordering) : Nat → List (List α) → m (List α)
  | _, [] => pure []
  | _, [r] => pure r
  | 0, runs => pure runs.flatten
  | n + 1, runs => do mergePasses compare n (← mergePairs compare runs)

/-- The items in the order of a comparison. -/
def mergeSortBy (compare : α → α → m Ordering) (items : List α) : m (List α) :=
  mergePasses compare items.length (items.map fun x => [x])

end Membrane
