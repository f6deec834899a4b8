import Membrane.Proofs.Copying
import Membrane.Proofs.Formatting

/-!
# Values without a text

Nothing keeps a script array from being written inside itself for ever. As long as no array contains
itself, directly or within others, every value has a text: a host collection met again is not
written again, and between two of them no array is met twice. So no more collections are ever
inside each other than the depth allows at which texts are written. An array that contains itself
has no text.

## Main definitions

* `World.collectionsLeft`: how many collections may still be entered.

## Main results

* `World.isSome_write_of_lt`: what is written within the depth that is left.
* `World.acc_of_isSome_write`: an array that is written does not contain itself.
* `World.forall_hasText_iff`: all values have texts just if no array contains itself.
-/

namespace Membrane

open Host (Value)

namespace World

variable {w : World} {n : Nat} {outer : List (Ref .object)} {inner : List (Ref .array)}

/-- How many collections may still be entered, while some host collections and, within the innermost
of them, some script arrays are being written. -/
def collectionsLeft (w : World) (outer : List (Ref .object)) (inner : List (Ref .array)) : Nat :=
  w.remaining outer * (w.arrays.size + 1) + (w.arrays.size - inner.length)

theorem collectionsLeft_lt_depth (w : World) : w.collectionsLeft [] [] < w.depth := by
  have hremaining : w.remaining [] * (w.arrays.size + 1) ≤ w.objects.size * (w.arrays.size + 1) :=
    Nat.mul_le_mul_right _ (w.remaining_le_size [])
  have hdepth : w.depth = w.objects.size * (w.arrays.size + 1) + (w.arrays.size + 1) + 1 := by
    rw [depth, Nat.succ_mul]
  have hleft : w.collectionsLeft [] [] = w.remaining [] * (w.arrays.size + 1) + w.arrays.size := rfl
  omega

/-- To enter a host collection takes one from the objects that are left, whatever arrays have been
entered. -/
theorem collectionsLeft_object_lt {r : Ref .object} {o : Host.Object}
    (ho : w.objects.get? r = some o) (hr : r ∉ outer) :
    w.collectionsLeft (r :: outer) [] < w.collectionsLeft outer inner := by
  have hremaining : (w.remaining (r :: outer) + 1) * (w.arrays.size + 1) ≤
      w.remaining outer * (w.arrays.size + 1) :=
    Nat.mul_le_mul_right _ (remaining_cons_lt ho hr)
  rw [Nat.succ_mul] at hremaining
  simp only [collectionsLeft, List.length_nil]
  omega

/-- To enter a script array takes one from the arrays that are left. -/
theorem collectionsLeft_array_lt {r : Ref .array} (hnodup : (r :: inner).Nodup)
    (hin : ∀ s ∈ r :: inner, s.index < w.arrays.size) :
    w.collectionsLeft outer (r :: inner) < w.collectionsLeft outer inner := by
  have hlength := length_le_of_nodup hnodup hin
  simp only [collectionsLeft, List.length_cons] at hlength ⊢
  omega

/-- Only the items of an array that are arrays are written as such. -/
theorem isItem_of_writeScript {r s : Ref .array} {v : Script.Value}
    (hv : v ∈ (w.arrays.get? r).getD []) (hwrite : w.writeScript v = .place (.array s)) :
    w.IsItem s r := by
  by_cases harray : ∃ a, v = .array a
  · obtain ⟨a, rfl⟩ := harray
    cases hwrite
    exact hv
  · have hnot : (Value.script v).IsNotArray := fun a ha => harray ⟨a, Value.script.inj ha⟩
    exact absurd hwrite (writeHost_ne_array hnot s)

/-- Where no array contains itself, anything is written as long as the depth is that of the
collections that may still be entered. Each of the arrays being written contains the next, and the
innermost contains what is to be written. -/
theorem isSome_write_of_lt (hacyclic : ∀ r, ¬Relation.TransGen w.IsItem r r)
    (hdepth : w.collectionsLeft outer inner < n) {x : Writing} (hnodup : inner.Nodup)
    (hin : ∀ s ∈ inner, s.index < w.arrays.size)
    (hpath : ∀ r, x = .place (.array r) → ∀ s ∈ inner, Relation.TransGen w.IsItem r s) :
    (w.write [] n outer inner x).isSome := by
  induction n generalizing outer inner x with
  | zero => omega
  | succ n ih =>
    match x with
    | .text s => simp
    | .place (.array r) =>
      have hnew : r ∉ inner := fun hmem => hacyclic r (hpath r rfl r hmem)
      refine isSome_write_array_iff.2 ⟨hnew, fun v hv hnull => ?_⟩
      have hnodup' : (r :: inner).Nodup := List.nodup_cons.2 ⟨hnew, hnodup⟩
      have hin' : ∀ s ∈ r :: inner, s.index < w.arrays.size :=
        List.forall_mem_cons.2 ⟨index_lt_of_mem_items hv, hin⟩
      have hless : w.collectionsLeft outer (r :: inner) < w.collectionsLeft outer inner :=
        collectionsLeft_array_lt hnodup' hin'
      refine ih (by omega) hnodup' hin' fun t ht => ?_
      have hitem := isItem_of_writeScript hv ht
      exact List.forall_mem_cons.2 ⟨.single hitem, fun s hs => .head hitem (hpath r rfl s hs)⟩
    | .place (.object r) =>
      refine isSome_write_object_iff.2 fun o ho c hc hr values hvalues v hv => ?_
      have hless : w.collectionsLeft (r :: outer) [] < w.collectionsLeft outer inner :=
        collectionsLeft_object_lt ho hr
      exact ih (by omega) .nil nofun nofun

/-- An array that is written does not contain itself. -/
theorem acc_of_isSome_write {r : Ref .array}
    (h : (w.write [] n outer inner (.place (.array r))).isSome) : Acc w.IsItem r := by
  induction n generalizing inner r with
  | zero => cases h
  | succ n ih =>
    exact .intro _ fun s hs => ih ((isSome_write_array_iff.1 h).2 (.array s) hs rfl)

/-- All values have texts just if no script array contains itself, directly or within others. -/
theorem forall_hasText_iff :
    (∀ v, w.HasText v) ↔ ∀ r, ¬Relation.TransGen w.IsItem r r := by
  constructor
  · intro htexts r
    exact not_rel_self_of_acc (acc_of_isSome_write (htexts (.script (.array r)))).transGen
  · intro hacyclic v
    exact isSome_write_of_lt hacyclic w.collectionsLeft_lt_depth .nil nofun nofun

end World

end Membrane
