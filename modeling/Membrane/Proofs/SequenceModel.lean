import Membrane.Prototype.Sequence

/-!
# Steps of a plain sequence

A list as seen by those who use it: a sequence of values and the steps it can take. A step is
refused or gives a reply and the sequence it leaves. There is one step for each operation of the
host and each function of the script that changes a list, and for the writing and the deletion of an
item. Indices come in different ways. Where the host gives one it must lie within the sequence, a
splice counts a negative start from the end, and the index of an item to be written or deleted may
be missing altogether.

## Main definitions

* `Sequence.Edit`, `Sequence.Reply`: steps and what they are replied with.
* `Sequence.Edit.apply`: a step taken.

## Main results

* `Sequence.Edit.mem_of_apply`: no value comes from anywhere but the sequence and the step.
* `Sequence.Edit.eq_of_apply_false`: a step that is answered with `false` changes nothing.
-/

namespace Membrane.Sequence

open Host (Value)

/-- A step of a sequence of values. -/
inductive Edit where
  /-- Adds a value at the end. -/
  | add (v : Value)
  /-- Puts a value at an index, in front of the item there. -/
  | insert (index : Option Nat) (v : Value)
  /-- Looks at an item. -/
  | get (index : Option Nat)
  /-- Puts a value in the place of an item. -/
  | set (index : Option Nat) (v : Value)
  /-- Takes out an item. -/
  | remove (index : Option Nat)
  /-- Takes out all items. -/
  | clear
  /-- Takes out the last item. -/
  | pop
  /-- Adds values at the end. -/
  | push (vs : List Value)
  /-- Reverses the items. -/
  | reverse
  /-- Takes out the first item. -/
  | shift
  /-- Puts values in the place of a number of items from a start on, or of all from there on.
  Without a start nothing happens. -/
  | splice (start : Option Int) (count : Option Int) (vs : List Value)
  /-- Adds values at the front. -/
  | unshift (vs : List Value)
  /-- Puts a value in the place of an item. Where there is none, an answer is given instead. -/
  | write (index : Option Nat) (v : Value) (otherwise : Bool)
  /-- Takes out an item, if there is one. -/
  | erase (index : Option Nat)
  deriving DecidableEq

/-- What a step is replied with. -/
inductive Reply where
  /-- It is done. -/
  | done
  /-- An item. -/
  | item (v : Value)
  /-- There is no item. -/
  | missing
  /-- The items taken out. -/
  | items (vs : List Value)
  /-- The length that is left. -/
  | length (n : Nat)
  /-- Whether it was done. -/
  | truth (b : Bool)
  deriving DecidableEq

/-- The item at an index, with the index. -/
def itemAt? (xs : List Value) (index : Option Nat) : Option (Nat × Value) :=
  index.bind fun i => xs[i]?.map (i, ·)

/-- Where a splice starts: a negative start is counted from the end, as far as the front. -/
def position (start : Int) (length : Nat) : Nat :=
  if start < 0 then (length + start).toNat else start.toNat

/-- The values a step brings. -/
def Edit.values : Edit → List Value
  | .add v | .insert _ v | .set _ v | .write _ v _ => [v]
  | .push vs | .splice _ _ vs | .unshift vs => vs
  | _ => []

/-- The values of a reply. -/
def Reply.values : Reply → List Value
  | .item v => [v]
  | .items vs => vs
  | _ => []

/-- What a step of a sequence gives and leaves, unless it is refused. -/
def Edit.apply (xs : List Value) : Edit → Option (Reply × List Value)
  | .add v => some (.truth true, xs ++ [v])
  | .insert index v =>
    (index.filter (· ≤ xs.length)).map fun i => (.done, xs.insertIdx i v)
  | .get index => (itemAt? xs index).map fun at_ => (.item at_.2, xs)
  | .set index v => (itemAt? xs index).map fun at_ => (.item at_.2, xs.set at_.1 v)
  | .remove index => (itemAt? xs index).map fun at_ => (.item at_.2, xs.eraseIdx at_.1)
  | .clear => some (.done, [])
  | .pop => some (xs.getLast?.elim .missing .item, xs.dropLast)
  | .push vs => some (.length (xs ++ vs).length, xs ++ vs)
  | .reverse => some (.done, xs.reverse)
  | .shift => some (xs.head?.elim .missing .item, xs.tail)
  | .splice none _ _ => some (.items [], xs)
  | .splice (some start) count vs =>
    let i := position start xs.length
    if i < xs.length then
      let n := count.elim xs.length Int.toNat
      some (.items ((xs.drop i).take n), xs.take i ++ vs ++ (xs.drop i).drop n)
    else none
  | .unshift vs => some (.length (vs ++ xs).length, vs ++ xs)
  | .write index v otherwise =>
    some ((itemAt? xs index).elim (.truth otherwise, xs) fun at_ => (.truth true, xs.set at_.1 v))
  | .erase index =>
    some ((itemAt? xs index).elim (.truth false, xs) fun at_ => (.truth true, xs.eraseIdx at_.1))

section Apply

variable {xs ys : List Value} {edit : Edit} {reply : Reply} {index : Option Nat} {v : Value}

theorem itemAt?_eq_some_iff {i : Nat} :
    itemAt? xs index = some (i, v) ↔ index = some i ∧ xs[i]? = some v := by
  unfold itemAt?
  cases index with
  | none => simp
  | some j =>
    simp only [Option.bind_some, Option.map_eq_some_iff, Prod.mk.injEq, Option.some.injEq]
    constructor
    · rintro ⟨_, hv, rfl, rfl⟩
      exact ⟨rfl, hv⟩
    · rintro ⟨rfl, hv⟩
      exact ⟨v, hv, rfl, rfl⟩

theorem mem_of_itemAt? {p : Nat × Value} (h : itemAt? xs index = some p) : p.2 ∈ xs :=
  List.mem_of_getElem? (itemAt?_eq_some_iff.1 h).2

/-- What a step leaves and replies is made of the items there were and the values it brings. -/
theorem Edit.mem_of_apply (h : edit.apply xs = some (reply, ys)) :
    (∀ v ∈ ys, v ∈ xs ∨ v ∈ edit.values) ∧ ∀ v ∈ reply.values, v ∈ xs := by
  -- The replies with an optional item come from the ends of the sequence.
  have hend : ∀ v? : Option Value, (∀ v ∈ v?, v ∈ xs) →
      ∀ v ∈ (v?.elim Reply.missing Reply.item).values, v ∈ xs := by
    intro v? hv?
    cases v? with
    | none => exact fun v hv => absurd hv List.not_mem_nil
    | some u =>
      intro v hv
      obtain rfl := List.mem_singleton.1 hv
      exact hv? v rfl
  cases edit with
  | add v =>
    cases h
    exact ⟨by simp [values], nofun⟩
  | insert index v =>
    obtain ⟨i, hi, h⟩ := Option.map_eq_some_iff.1 h
    cases h
    have hle : i ≤ xs.length := by simpa using (Option.filter_eq_some_iff.1 hi).2
    exact ⟨fun u hu => ((List.mem_insertIdx hle).1 hu).symm.imp_right List.mem_singleton.2, nofun⟩
  | get index =>
    obtain ⟨p, hp, h⟩ := Option.map_eq_some_iff.1 h
    cases h
    exact ⟨fun u hu => .inl hu, List.forall_mem_singleton.2 (mem_of_itemAt? hp)⟩
  | set index v =>
    obtain ⟨p, hp, h⟩ := Option.map_eq_some_iff.1 h
    cases h
    exact ⟨fun u hu => (List.mem_or_eq_of_mem_set hu).imp_right List.mem_singleton.2,
      List.forall_mem_singleton.2 (mem_of_itemAt? hp)⟩
  | remove index =>
    obtain ⟨p, hp, h⟩ := Option.map_eq_some_iff.1 h
    cases h
    exact ⟨fun u hu => .inl (List.mem_of_mem_eraseIdx hu),
      List.forall_mem_singleton.2 (mem_of_itemAt? hp)⟩
  | clear =>
    cases h
    exact ⟨nofun, nofun⟩
  | pop =>
    cases h
    exact ⟨fun u hu => .inl (List.dropLast_subset _ hu),
      hend _ fun v hv => List.mem_of_getLast? hv⟩
  | push vs =>
    cases h
    exact ⟨fun u hu => List.mem_append.1 hu, nofun⟩
  | reverse =>
    cases h
    exact ⟨fun u hu => .inl (List.mem_reverse.1 hu), nofun⟩
  | shift =>
    cases h
    exact ⟨fun u hu => .inl (List.mem_of_mem_tail hu), hend _ fun v hv => List.mem_of_head? hv⟩
  | splice start count vs =>
    cases start with
    | none =>
      cases h
      exact ⟨fun u hu => .inl hu, nofun⟩
    | some start =>
      simp only [apply] at h
      split at h
      · cases h
        refine ⟨fun u hu => ?_, fun u hu => List.mem_of_mem_drop (List.mem_of_mem_take hu)⟩
        rw [List.mem_append, List.mem_append] at hu
        obtain (hu | hu) | hu := hu
        · exact .inl (List.mem_of_mem_take hu)
        · exact .inr hu
        · exact .inl (List.mem_of_mem_drop (List.mem_of_mem_drop hu))
      · cases h
  | unshift vs =>
    cases h
    exact ⟨fun u hu => (List.mem_append.1 hu).symm, nofun⟩
  | write index v otherwise =>
    cases hp : itemAt? xs index with
    | none =>
      simp only [apply, hp, Option.elim_none] at h
      cases h
      exact ⟨fun u hu => .inl hu, nofun⟩
    | some p =>
      simp only [apply, hp, Option.elim_some] at h
      cases h
      exact ⟨fun u hu => (List.mem_or_eq_of_mem_set hu).imp_right List.mem_singleton.2, nofun⟩
  | erase index =>
    cases hp : itemAt? xs index with
    | none =>
      simp only [apply, hp, Option.elim_none] at h
      cases h
      exact ⟨fun u hu => .inl hu, nofun⟩
    | some p =>
      simp only [apply, hp, Option.elim_some] at h
      cases h
      exact ⟨fun u hu => .inl (List.mem_of_mem_eraseIdx hu), nofun⟩

/-- A step that is answered with `false` changes nothing. -/
theorem Edit.eq_of_apply_false (h : edit.apply xs = some (.truth false, ys)) : ys = xs := by
  cases edit with
  | write index v otherwise =>
    cases hp : itemAt? xs index <;>
      simp only [apply, hp, Option.elim_none, Option.elim_some] at h <;> cases h
    rfl
  | erase index =>
    cases hp : itemAt? xs index <;>
      simp only [apply, hp, Option.elim_none, Option.elim_some] at h <;> cases h
    rfl
  | insert index v =>
    obtain ⟨i, -, h⟩ := Option.map_eq_some_iff.1 h
    cases h
  | pop => cases hlast : xs.getLast? <;> simp [apply, hlast] at h
  | shift => cases hhead : xs.head? <;> simp [apply, hhead] at h
  | splice start count vs =>
    cases start with
    | none => cases h
    | some start =>
      simp only [apply] at h
      split at h <;> cases h
  | get index | set index v | remove index =>
    obtain ⟨p, -, h⟩ := Option.map_eq_some_iff.1 h
    cases h
  | _ => cases h

end Apply

end Membrane.Sequence
