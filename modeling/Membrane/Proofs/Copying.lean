import Membrane.Proofs.Crossing
import Membrane.Proofs.Resolution
import Mathlib.Data.List.Perm.Subperm
import Mathlib.Logic.Relation

/-!
# Copies of script arrays

Carried to the host, a script array is copied into a list, and so are the arrays in it. An array
that contains itself, however deep, has no copy. All others have one: on a path from an array to one
that it contains no array is met twice, so no path is longer than there are arrays, and that is how
deep arrays are copied. To carry a value to the host raises no fault by itself.

## Main definitions

* `World.IsItem`: that an array is an item of another.
* `Script.Value.Unfolds`: a value that is no array, or one that does not contain itself.

## Main results

* `Script.Value.Unfolds.carryToHost_eq_ok`: such a value is carried to the host.
* `carryToHost_ne_fault`: to carry a value to the host raises no fault.
-/

namespace Membrane

open Host (Value)

/-- An array is an item of another. -/
def World.IsItem (w : World) (r s : Ref .array) : Prop :=
  Script.Value.array r ∈ (w.arrays.get? s).getD []

/-- A value that is no array, or an array that does not contain itself, however deep. -/
def Script.Value.Unfolds (v : Script.Value) (w : World) : Prop :=
  ∀ r, v = .array r → Acc w.IsItem r

theorem World.AddsObjects.arrays_eq {w w' : World} (h : w.AddsObjects w') :
    w'.arrays = w.arrays := by
  rw [h.rest]

/-! ### Sequences of computations -/

namespace Run

variable {α β : Type} {f : α → Run β} {l : List α}

/-- If each of some computations ends and keeps a condition, so do all of them. -/
theorem mapM_eq_ok {I : World → Prop} (hf : ∀ a ∈ l, ∀ w, I w → ∃ b w', f a w = .ok b w' ∧ I w')
    {w : World} (hw : I w) : ∃ bs w', l.mapM f w = .ok bs w' ∧ I w' := by
  induction l generalizing w with
  | nil => exact ⟨[], w, rfl, hw⟩
  | cons a l ih =>
    obtain ⟨b, w₁, hb, hw₁⟩ := hf a List.mem_cons_self w hw
    obtain ⟨bs, w₂, hbs, hw₂⟩ := ih (fun a' ha' => hf a' (List.mem_cons_of_mem a ha')) hw₁
    refine ⟨b :: bs, w₂, ?_, hw₂⟩
    rw [List.mapM_cons, bind_of_ok hb, bind_of_ok hbs]
    rfl

/-- A computation that raises no fault. -/
def Faultless (x : Run α) : Prop := ∀ w f w', x w ≠ .error (.fault f) w'

namespace Faultless

theorem of_ok {x : Run α} (hx : ∀ w, ∃ a w', x w = .ok a w') : x.Faultless := by
  intro w f w' h
  obtain ⟨a, w₁, hok⟩ := hx w
  cases hok.symm.trans h

theorem pure (a : α) : (Pure.pure a : Run α).Faultless := nofun

theorem bind {x : Run α} {g : α → Run β} (hx : x.Faultless) (hg : ∀ a, (g a).Faultless) :
    (x >>= g).Faultless := by
  intro w f w' h
  obtain hfirst | ⟨a, w₁, -, hlater⟩ := bind_eq_error h
  · exact hx w f w' hfirst
  · exact hg a w₁ f w' hlater

theorem holdsOfParts : HoldsOfParts fun _ x => x.Faultless where
  pure := .pure
  bind := .bind
  look hf _ := .bind (.of_ok fun w => ⟨w, w, rfl⟩) hf

end Faultless

end Run

/-! ### Carrying arrays -/

/-- To carry a value to the host raises no fault. -/
theorem carryToHost_ne_fault (n : Nat) (v : Script.Value) : (v.carryToHost n).Faultless :=
  Run.Faultless.holdsOfParts.carryToHost nofun (fun _ => .of_ok fun _ => ⟨_, _, rfl⟩) n v

/-- A value that is no array is carried to the host at any depth. -/
theorem carryToHost_of_ne_array {v : Script.Value} (hv : ∀ r, v ≠ .array r) (n : Nat) (w : World) :
    ∃ u, v.carryToHost n w = .ok u w := by
  cases v with
  | array r => exact absurd rfl (hv r)
  | _ => cases n <;> exact ⟨_, rfl⟩

/-- Whatever is reached by going down for ever is not reached from itself. -/
theorem not_rel_self_of_acc {α : Type} {rel : α → α → Prop} {a : α} (h : Acc rel a) : ¬rel a a := by
  induction h with
  | intro a _ ih => exact fun haa => ih a haa haa

/-- Different arrays that are there are no more than all arrays. -/
theorem length_le_of_nodup {w : World} {path : List (Ref .array)} (hnodup : path.Nodup)
    (hin : ∀ s ∈ path, s.index < w.arrays.size) : path.length ≤ w.arrays.size := by
  have hindices : (path.map Ref.index).Nodup :=
    List.Nodup.map (fun s t hst => congrArg Ref.mk hst) hnodup
  have hrange : path.map Ref.index ⊆ List.range w.arrays.size := by
    intro i hi
    obtain ⟨s, hs, rfl⟩ := List.mem_map.1 hi
    exact List.mem_range.2 (hin s hs)
  simpa using (List.Nodup.subperm hindices hrange).length_le

/-- An array that has an item is there. -/
theorem World.index_lt_of_mem_items {w : World} {v : Script.Value} {r : Ref .array}
    (hv : v ∈ (w.arrays.get? r).getD []) : r.index < w.arrays.size := by
  by_contra hr
  have hnone : w.arrays.get? r = none := Array.getElem?_eq_none (Nat.le_of_not_lt hr)
  rw [hnone] at hv
  cases hv

/-- An array that does not contain itself is copied as long as the depth that is left is that of the
arrays not met on the path to it. -/
theorem carryToHost_eq_ok_of_path {w : World} (n : Nat) {r : Ref .array} {path : List (Ref .array)}
    (hpath : ∀ s ∈ path, Relation.TransGen w.IsItem r s) (hnodup : path.Nodup)
    (hin : ∀ s ∈ path, s.index < w.arrays.size) (hr : Acc w.IsItem r)
    (hdepth : w.arrays.size < n + path.length) {w₁ : World} (hw₁ : w₁.arrays = w.arrays) :
    ∃ u w₂, (Script.Value.array r).carryToHost n w₁ = .ok u w₂ := by
  induction n generalizing r path w₁ with
  | zero =>
    have := length_le_of_nodup hnodup hin
    omega
  | succ n ih =>
    have hnew : r ∉ path := fun hmem => not_rel_self_of_acc hr.transGen (hpath r hmem)
    have hitem (v : Script.Value) (hv : v ∈ (w.arrays.get? r).getD []) (w₂ : World)
        (hw₂ : w₂.arrays = w.arrays) :
        ∃ u w₃, v.carryToHost n w₂ = .ok u w₃ ∧ w₃.arrays = w.arrays := by
      have hcarried : ∃ u w₃, v.carryToHost n w₂ = .ok u w₃ := by
        by_cases harray : ∃ s, v = .array s
        · obtain ⟨s, rfl⟩ := harray
          have hs : w.IsItem s r := hv
          have hpath' : ∀ t ∈ r :: path, Relation.TransGen w.IsItem s t :=
            List.forall_mem_cons.2 ⟨.single hs, fun t ht => .head hs (hpath t ht)⟩
          refine ih hpath' (List.nodup_cons.2 ⟨hnew, hnodup⟩)
            (List.forall_mem_cons.2 ⟨World.index_lt_of_mem_items hs, hin⟩) (hr.inv hs) ?_ hw₂
          rw [List.length_cons]
          omega
        · obtain ⟨u, hu⟩ := carryToHost_of_ne_array (not_exists.1 harray) n w₂
          exact ⟨u, w₂, hu⟩
      obtain ⟨u, w₃, hu⟩ := hcarried
      have hadds := within_carryToHost n v w₂
      rw [hu] at hadds
      exact ⟨u, w₃, hu, hadds.arrays_eq.trans hw₂⟩
    obtain ⟨items, w₂, hitems, -⟩ := Run.mapM_eq_ok hitem hw₁
    have hrun : (Script.Value.array r).carryToHost (n + 1) w₁ = Run.newList items w₂ := by
      rw [← hw₁] at hitems
      exact Run.bind_of_ok hitems
    exact ⟨_, _, hrun⟩

namespace Script.Value.Unfolds

variable {v : Script.Value} {w : World}

/-- No array is deeper than there are arrays, so all that do not contain themselves are copied. -/
theorem carryToHost_eq_ok (hv : v.Unfolds w) :
    ∃ u w', v.carryToHost (w.arrays.size + 1) w = .ok u w' := by
  by_cases harray : ∃ r, v = .array r
  · obtain ⟨r, rfl⟩ := harray
    have hpath : ∀ s ∈ ([] : List (Ref .array)), Relation.TransGen w.IsItem r s := nofun
    exact carryToHost_eq_ok_of_path (w.arrays.size + 1) hpath .nil nofun (hv r rfl)
      (Nat.lt_succ_self _) rfl
  · obtain ⟨u, hu⟩ := carryToHost_of_ne_array (not_exists.1 harray) (w.arrays.size + 1) w
    exact ⟨u, w, hu⟩

end Script.Value.Unfolds

namespace Engine

variable {eng : Engine} {v : Script.Value} {w : World}

/-- An open engine carries every value to the host that does not contain itself. -/
theorem Open.toHost_eq_ok (hopen : eng.Open) (hv : v.Unfolds w) :
    ∃ u w', eng.toHost v w = .ok u w' := by
  rw [toHost_eq_carryToHost (hopen.toHost w v)]
  exact hv.carryToHost_eq_ok

/-- An open engine raises no fault when it carries a value to the host. -/
theorem Open.toHost_ne_fault (hopen : eng.Open) (v : Script.Value) : (eng.toHost v).Faultless := by
  intro w f w'
  rw [toHost_eq_carryToHost (hopen.toHost w v)]
  exact carryToHost_ne_fault _ v w f w'

end Engine

end Membrane
