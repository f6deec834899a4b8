/-!
# Sets of names

A set of names is the list of its members in alphabetical order of code points, without
repetition.

Source: specification, section 9: the sets of override methods.

## Main definitions

* `Names.insert`, `Names.ofList`.
-/

namespace Membrane.Names

/-- Adds a name at its place. -/
def insert (name : String) : List String → List String
  | [] => [name]
  | n :: ns =>
    if name < n then name :: n :: ns
    else if name = n then n :: ns
    else n :: insert name ns

/-- The set of the names in a list. -/
def ofList (names : List String) : List String := names.foldl (fun s n => insert n s) []

end Membrane.Names
