/-!
# Insertion-ordered collections

Sets and dictionaries keep their members in the order of first insertion. Putting a present key
replaces its value in place; removing a key keeps the order of the others. Members are compared by
`==`, which for host values is not structural equality, so all operations take only a `BEq`
instance and keep the member that was stored first.

Source: specification, section 2, the storage of "Host object model", and the insertion order of
section 4.3.

## Main definitions

* `Dictionary κ α`: the entries in order, with `get?`, `put`, `putNew`, `erase` and `keys`.
* `Members.contains`, `Members.insert`, `Members.erase`: sets, as lists of their members.
-/

namespace Membrane

/-- The entries of a dictionary in order of first insertion. -/
abbrev Dictionary (κ α : Type) := List (κ × α)

namespace Dictionary

variable {κ α : Type}

/-- The keys in order. -/
def keys (d : Dictionary κ α) : List κ := d.map Prod.fst

/-- The values in order. -/
def values (d : Dictionary κ α) : List α := d.map Prod.snd

variable [BEq κ]

/-- The value stored under a key. -/
@[specialize] def get? (d : Dictionary κ α) (k : κ) : Option α :=
  match d with
  | [] => none
  | (k', v) :: rest => if k' == k then some v else get? rest k

/-- Whether a key is present. -/
@[specialize] def contains (d : Dictionary κ α) (k : κ) : Bool := d.any (·.1 == k)

/-- Stores a value under a key: in place if the key is present, at the end otherwise. -/
@[specialize] def put (d : Dictionary κ α) (k : κ) (v : α) : Dictionary κ α :=
  match d with
  | [] => [(k, v)]
  | (k', v') :: rest => if k' == k then (k', v) :: rest else (k', v') :: put rest k v

/-- Stores a value under a key that is absent, and changes nothing otherwise. -/
@[specialize] def putNew (d : Dictionary κ α) (k : κ) (v : α) : Dictionary κ α :=
  if d.contains k then d else d ++ [(k, v)]

/-- Removes the entry of a key. -/
@[specialize] def erase (d : Dictionary κ α) (k : κ) : Dictionary κ α := d.eraseP (·.1 == k)

/-- The dictionary of a list of entries, put in one after the other. -/
def ofEntries (entries : List (κ × α)) : Dictionary κ α :=
  entries.foldl (fun d e => put d e.1 e.2) []

end Dictionary

namespace Members

variable {α : Type} [BEq α]

/-- Whether a member is present. -/
@[specialize] def contains (s : List α) (a : α) : Bool := s.any (· == a)

/-- Adds a member at the end unless it is present. -/
@[specialize] def insert (s : List α) (a : α) : List α :=
  match s with
  | [] => [a]
  | b :: rest => if b == a then b :: rest else b :: insert rest a

/-- Removes a member. -/
@[specialize] def erase (s : List α) (a : α) : List α := s.eraseP (· == a)

/-- The set of a list of values, inserted one after the other. -/
def ofList (values : List α) : List α := values.foldl insert []

end Members

end Membrane
