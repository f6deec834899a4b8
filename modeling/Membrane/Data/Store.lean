/-!
# Stores of cells

Everything with an identity lives in a store: a growing sequence of cells, named by references.
References are typed by the kind of cell they name, so a reference to a handler cannot be used to
look up an object.

Source: specification, section 3: targets are reached through shared handles.

## Main definitions

* `Cell`: the kinds of things with an identity.
* `Ref`: a reference to a cell.
* `Node`: a thing of any kind.
* `Store`: the cells of one kind, with `get?`, `alloc` and `modify`.
-/

namespace Membrane

/-- The kinds of things with an identity. -/
inductive Cell where
  /-- A host object. -/
  | object
  /-- A script array. -/
  | array
  /-- A plain script object. -/
  | record
  /-- A callable. -/
  | function
  /-- A proxy handler. -/
  | handler
  /-- The state of an iterator. -/
  | iterator
  deriving DecidableEq, Hashable

/-- A reference to a cell of one kind. -/
structure Ref (c : Cell) where
  /-- The position of the cell in its store. -/
  index : Nat
  deriving DecidableEq

/-- Whether a reference is one of some others. -/
def Ref.isIn {c : Cell} (r : Ref c) : List (Ref c) → Bool
  | [] => false
  | s :: rest => s.index == r.index || r.isIn rest

theorem Ref.isIn_iff {c : Cell} {r : Ref c} {rs : List (Ref c)} : r.isIn rs = true ↔ r ∈ rs := by
  induction rs with
  | nil => exact ⟨nofun, nofun⟩
  | cons s rest ih =>
    rw [Ref.isIn, Bool.or_eq_true, ih, List.mem_cons, beq_iff_eq]
    exact or_congr_left ⟨fun h => congrArg Ref.mk h.symm, fun h => h ▸ rfl⟩

/-- A thing with an identity, of any kind. -/
structure Node where
  /-- The kind of its cell. -/
  kind : Cell
  /-- The position of its cell in the store. -/
  index : Nat
  deriving DecidableEq, Hashable

/-- The thing that a reference names. -/
def Ref.node {c : Cell} (r : Ref c) : Node := ⟨c, r.index⟩

/-- The cells of one kind, oldest first. -/
structure Store (c : Cell) (α : Type) where
  /-- The cells. -/
  cells : Array α := #[]

namespace Store

variable {c : Cell} {α : Type}

instance : Inhabited (Store c α) := ⟨{}⟩

/-- The number of cells. -/
def size (s : Store c α) : Nat := s.cells.size

/-- The content of a cell. -/
def get? (s : Store c α) (r : Ref c) : Option α := s.cells[r.index]?

/-- The reference the next allocation gives. -/
def next (s : Store c α) : Ref c := ⟨s.cells.size⟩

/-- Adds a cell, named by `s.next`. -/
def alloc (s : Store c α) (a : α) : Store c α := ⟨s.cells.push a⟩

/-- Changes the content of a cell. -/
def modify (s : Store c α) (r : Ref c) (change : α → α) : Store c α :=
  ⟨s.cells.modify r.index change⟩

theorem get?_alloc_next (s : Store c α) (a : α) : (s.alloc a).get? s.next = some a := by
  simp [get?, alloc, next]

/-- The reference of the next allocation names no cell yet. -/
theorem get?_next (s : Store c α) : s.get? s.next = none := by
  simp [get?, next]

theorem get?_alloc_of_some {s : Store c α} {r : Ref c} {b : α} (a : α) (h : s.get? r = some b) :
    (s.alloc a).get? r = some b := by
  simp only [get?, alloc] at h ⊢
  have := (Array.getElem?_eq_some_iff.1 h).1
  grind

/-- The cells after an allocation are those before it and the new one. -/
theorem get?_or_eq_of_alloc {s : Store c α} {a b : α} {r : Ref c}
    (h : (s.alloc a).get? r = some b) : s.get? r = some b ∨ b = a := by
  simp only [get?, alloc, Array.getElem?_push] at h ⊢
  split at h
  · exact .inr (Option.some.inj h).symm
  · exact .inl h

theorem get?_modify_self (s : Store c α) (r : Ref c) (change : α → α) :
    (s.modify r change).get? r = (s.get? r).map change := by
  simp [get?, modify, Array.getElem?_modify]

theorem get?_modify_of_ne (s : Store c α) {r r' : Ref c} (change : α → α) (h : r ≠ r') :
    (s.modify r change).get? r' = s.get? r' := by
  have : r.index ≠ r'.index := fun e => h (by cases r; cases r'; simp_all)
  simp [get?, modify, Array.getElem?_modify, this]

/-- Only the content of the cell that is changed matters to a change. -/
theorem modify_congr {s : Store c α} {r : Ref c} {a : α} {f g : α → α} (h : s.get? r = some a)
    (hfg : f a = g a) : s.modify r f = s.modify r g := by
  obtain ⟨hr, rfl⟩ := Array.getElem?_eq_some_iff.1 h
  unfold modify
  congr 1
  refine Array.ext (by simp) fun i hi _ => ?_
  rw [Array.getElem_modify, Array.getElem_modify]
  split
  · next hri =>
    subst hri
    exact hfg
  · rfl

/-- Changes that do not get in each other's way may be made in either order. -/
theorem modify_comm (s : Store c α) {r r' : Ref c} {f g : α → α}
    (h : r = r' → ∀ a, f (g a) = g (f a)) :
    (s.modify r' g).modify r f = (s.modify r f).modify r' g := by
  unfold modify
  congr 1
  refine Array.ext (by simp) fun i hi _ => ?_
  rw [Array.getElem_modify, Array.getElem_modify, Array.getElem_modify, Array.getElem_modify]
  split
  · split
    · next hr hr' => exact h (by cases r; cases r'; simp_all) _
    · rfl
  · rfl

/-- A cell that is there is changed before or after another one is added. -/
theorem modify_alloc {s : Store c α} {r : Ref c} {b : α} (h : s.get? r = some b) (a : α)
    (change : α → α) : (s.alloc a).modify r change = (s.modify r change).alloc a := by
  have hr : r.index < s.cells.size := (Array.getElem?_eq_some_iff.1 h).1
  unfold modify alloc
  congr 1
  refine Array.ext (by simp) fun i hi _ => ?_
  rw [Array.getElem_modify, Array.getElem_push, Array.getElem_push]
  simp only [Array.size_modify, Array.getElem_modify]
  grind

theorem next_modify (s : Store c α) (r : Ref c) (change : α → α) :
    (s.modify r change).next = s.next := by
  simp [next, modify]

theorem modify_id (s : Store c α) (r : Ref c) : s.modify r id = s := by
  unfold modify
  congr 1
  refine Array.ext (by simp) fun i hi _ => ?_
  rw [Array.getElem_modify]
  split <;> rfl

end Store

end Membrane
