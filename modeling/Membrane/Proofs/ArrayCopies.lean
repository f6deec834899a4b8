import Membrane.Proofs.Copying

/-!
# What copies of script arrays are

The copy of a script array is a list of the copies of its items, in order. Arrays among the items
are copied the same way, so a copy is a tree of lists. Every list of the tree was made for it: none
was there before, and no two places of the tree share one. The items that are no arrays stand in the
copy as what they are carried to the host as.

## Main definitions

* `InParts`: lists whose elements are related one by one, each pair with a part of a third list.
* `World.Copies`: what the copy of a script value is, and which lists were made for it.
* `World.KeepsThese`, `World.Makes`: objects that stay as they are, and objects that were made
  between two worlds, each once.

## Main results

* `World.Copies.later`: a copy stays a copy as long as its lists stay.
* `exists_copies_of_carryToHost`, `Engine.Open.toHost_copies`: what a value is carried to the host
  as is such a copy.
-/

namespace Membrane

open Host (Value)

/-- The elements of two lists are related one by one. Each pair comes with a part of a third list,
which the parts make up in order. -/
inductive InParts {α β γ : Type} (R : α → β → List γ → Prop) : List α → List β → List γ → Prop
  /-- No elements, and no parts. -/
  | nil : InParts R [] [] []
  /-- One more pair, and its part. -/
  | cons {a : α} {b : β} {part : List γ} {as : List α} {bs : List β} {parts : List γ}
    (hfirst : R a b part) (hrest : InParts R as bs parts) :
    InParts R (a :: as) (b :: bs) (part ++ parts)

/-- One relation may take the place of another that implies it on the parts there are. -/
theorem InParts.imp {α β γ : Type} {R R' : α → β → List γ → Prop} {as : List α} {bs : List β}
    {parts : List γ} (h : InParts R as bs parts)
    (hR : ∀ a b part, (∀ c ∈ part, c ∈ parts) → R a b part → R' a b part) :
    InParts R' as bs parts := by
  induction h with
  | nil => exact .nil
  | cons hfirst _ ih =>
    refine .cons (hR _ _ _ (fun c hc => List.mem_append_left _ hc) hfirst) (ih fun a b part hpart =>
      hR a b part fun c hc => List.mem_append_right _ (hpart c hc))

/-- What is related to something has what all such elements have. -/
theorem InParts.forall_right {α β γ : Type} {R : α → β → List γ → Prop} {as : List α} {bs : List β}
    {parts : List γ} {P : β → Prop} (h : InParts R as bs parts)
    (hP : ∀ a b part, R a b part → P b) : ∀ b ∈ bs, P b := by
  induction h with
  | nil => exact nofun
  | cons hfirst _ ih => exact List.forall_mem_cons.2 ⟨hP _ _ _ hfirst, ih⟩

/-- A script value of the first world has been copied to a host value, arrays in arrays to the given
depth, and the lists were made for the copy that the second world holds. An array has become a list
of its own, which holds the copies of the items in order. For any other value no list was made. -/
def World.Copies (w w' : World) (n : Nat) (s : Script.Value) (v : Value)
    (lists : List (Ref .object)) : Prop :=
  match n, s with
  | 0, .array _ => False
  | n + 1, .array r => ∃ o items parts, v = .object o ∧ lists = o :: parts ∧
      InParts (w.Copies w' n) ((w.arrays.get? r).getD []) items parts ∧
      w'.objects.get? o = some (.new Host.Library.list (.list items.toArray))
  | n, s => s.carryToHost n w = .ok v w ∧ lists = []

/-- These objects are as they were. -/
def World.KeepsThese (these : List (Ref .object)) (w w' : World) : Prop :=
  ∀ o ∈ these, ∀ x, w.objects.get? o = some x → w'.objects.get? o = some x

/-- These objects were made between two worlds, each once. -/
structure World.Makes (w w' : World) (made : List (Ref .object)) : Prop where
  /-- No object was lost. -/
  grows : w.objects.size ≤ w'.objects.size
  /-- The objects were not there before, and are there now. -/
  between : ∀ o ∈ made, w.objects.size ≤ o.index ∧ o.index < w'.objects.size
  /-- None was made twice. -/
  nodup : made.Nodup

namespace World

variable {w w₁ w₂ : World} {n : Nat} {s : Script.Value} {v : Value} {lists : List (Ref .object)}

namespace Makes

variable {first later : List (Ref .object)}

theorem nil (w : World) : w.Makes w [] := ⟨Nat.le_refl _, nofun, .nil⟩

/-- What is made later is made besides. -/
theorem append (h : w.Makes w₁ first) (h' : w₁.Makes w₂ later) :
    w.Makes w₂ (first ++ later) where
  grows := Nat.le_trans h.grows h'.grows
  between o ho := by
    obtain ho | ho := List.mem_append.1 ho
    · have hbetween := h.between o ho
      exact ⟨hbetween.1, Nat.lt_of_lt_of_le hbetween.2 h'.grows⟩
    · have hbetween := h'.between o ho
      exact ⟨Nat.le_trans h.grows hbetween.1, hbetween.2⟩
  nodup := by
    refine List.nodup_append.2 ⟨h.nodup, h'.nodup, fun o ho o' ho' heq => ?_⟩
    subst heq
    exact absurd (h.between o ho).2 (Nat.not_lt_of_le (h'.between o ho').1)

/-- The object that is made last. -/
theorem alloc (h : w.Makes w₁ first) (o : Host.Object) :
    w.Makes { w₁ with objects := w₁.objects.alloc o } (w₁.objects.next :: first) := by
  have hsize : (w₁.objects.alloc o).size = w₁.objects.size + 1 := Array.size_push _
  refine ⟨?_, fun o' ho' => ?_, List.nodup_cons.2 ⟨fun hmem => ?_, h.nodup⟩⟩
  · have := h.grows
    simp only [hsize]
    omega
  · obtain rfl | ho' := List.mem_cons.1 ho'
    · exact ⟨h.grows, Nat.lt_of_lt_of_eq (Nat.lt_succ_self _) hsize.symm⟩
    · have := h.between o' ho'
      simp only [hsize]
      omega
  · exact absurd (h.between _ hmem).2 (Nat.lt_irrefl _)

/-- What was made was not there before. -/
theorem get?_eq_none (h : w.Makes w₁ first) {o : Ref .object} (ho : o ∈ first) :
    w.objects.get? o = none :=
  Array.getElem?_eq_none (h.between o ho).1

end Makes

/-- A value that is no array is copied as it is carried to the host. -/
theorem copies_of_ne_array (hs : ∀ r, s ≠ .array r) :
    w.Copies w₁ n s v lists ↔ s.carryToHost n w = .ok v w ∧ lists = [] := by
  cases s with
  | array r => exact absurd rfl (hs r)
  | _ => cases n <;> exact Iff.rfl

/-- A copy stays a copy as long as its lists stay. -/
theorem Copies.later (h : w.Copies w₁ n s v lists) (hkept : w₁.KeepsThese lists w₂) :
    w.Copies w₂ n s v lists := by
  induction n generalizing s v lists with
  | zero => cases s <;> exact h
  | succ n ih =>
    cases s with
    | array r =>
      obtain ⟨o, items, parts, rfl, rfl, hitems, ho⟩ := h
      refine ⟨o, items, parts, rfl, rfl, hitems.imp fun s' v' part hpart hcopies => ?_,
        hkept o List.mem_cons_self _ ho⟩
      exact ih hcopies fun o' ho' => hkept o' (List.mem_cons_of_mem o (hpart o' ho'))
    | _ => exact h

/-- Among other objects the lists of a copy stay. -/
theorem Copies.addsObjects (h : w.Copies w₁ n s v lists) (hadds : w₁.AddsObjects w₂) :
    w.Copies w₂ n s v lists :=
  h.later fun o _ x => hadds.objects o x

end World

/-! ### Making copies -/

section Making

variable {w w₁ w₂ : World} {n : Nat}

/-- Where each item is copied, so are all of them, one after the other. -/
theorem exists_inParts_of_mapM {ss : List Script.Value} {vs : List Value}
    (hitem : ∀ (s : Script.Value) (v : Value) (w₁ w₂ : World), w.AddsObjects w₁ →
      s.carryToHost n w₁ = .ok v w₂ → ∃ lists, w.Copies w₂ n s v lists ∧ w₁.Makes w₂ lists)
    (hstart : w.AddsObjects w₁) (h : ss.mapM (Script.Value.carryToHost n) w₁ = .ok vs w₂) :
    ∃ lists, InParts (w.Copies w₂ n) ss vs lists ∧ w₁.Makes w₂ lists := by
  induction ss generalizing vs w₁ with
  | nil =>
    cases h
    exact ⟨[], .nil, .nil _⟩
  | cons s ss ih =>
    rw [List.mapM_cons] at h
    obtain ⟨v, w', hv, h⟩ := Run.bind_eq_ok h
    obtain ⟨vs, w₂, hvs, h⟩ := Run.bind_eq_ok h
    cases h
    have hadds : w₁.AddsObjects w' := (within_carryToHost n s).rel_of_ok hv
    have hlater : w'.AddsObjects w₂ :=
      (Run.Within.holdsOfParts.mapM (within_carryToHost n) ss).rel_of_ok hvs
    obtain ⟨first, hcopies, hmakes⟩ := hitem s v w₁ w' hstart hv
    obtain ⟨rest, hrest, hmakes'⟩ := ih (IsTrans.trans w w₁ w' hstart hadds) hvs
    exact ⟨first ++ rest, .cons (hcopies.addsObjects hlater) hrest, hmakes.append hmakes'⟩

/-- A value that is no array is carried to the host without any object being made, and as what its
handler answers for if it is a proxy. -/
theorem carryToHost_congr {s : Script.Value} {v : Value} (hs : ∀ r, s ≠ .array r)
    (hhandlers : w₁.handlers = w.handlers) (h : s.carryToHost n w₁ = .ok v w₂) :
    w₂ = w₁ ∧ s.carryToHost n w = .ok v w := by
  cases s with
  | array r => exact absurd rfl (hs r)
  | proxy r =>
    rw [carryToHost_proxy, hhandlers] at h
    cases h
    exact ⟨rfl, carryToHost_proxy n r w⟩
  | _ =>
    cases n <;> cases h <;> exact ⟨rfl, rfl⟩

/-- What a script value is carried to the host as is a copy of it, made of new lists. Other objects
may have been made before. -/
theorem exists_copies_of_carryToHost {s : Script.Value} {v : Value} (hstart : w.AddsObjects w₁)
    (h : s.carryToHost n w₁ = .ok v w₂) :
    ∃ lists, w.Copies w₂ n s v lists ∧ w₁.Makes w₂ lists := by
  induction n generalizing s v w₁ w₂ with
  | zero =>
    have hs (r : Ref .array) : s ≠ .array r := by
      rintro rfl
      cases h
    obtain ⟨rfl, hcarried⟩ := carryToHost_congr hs hstart.handlers_eq h
    exact ⟨[], (World.copies_of_ne_array hs).2 ⟨hcarried, rfl⟩, .nil _⟩
  | succ n ih =>
    by_cases hs : ∃ r, s = .array r
    · obtain ⟨r, rfl⟩ := hs
      rw [carryToHost_array, hstart.arrays_eq] at h
      obtain ⟨items, w', hitems, hmade⟩ := Run.bind_eq_ok h
      obtain ⟨parts, hparts, hmakes⟩ :=
        exists_inParts_of_mapM (fun s v w₁ w₂ hstart h => ih hstart h) hstart hitems
      cases hmade
      refine ⟨w'.objects.next :: parts, ⟨_, items, parts, rfl, rfl, ?_, Store.get?_alloc_next _ _⟩,
        hmakes.alloc _⟩
      exact hparts.imp fun s v part _ hcopies =>
        hcopies.addsObjects ((Run.within_newObject _).rel_of_ok rfl)
    · have hs := not_exists.1 hs
      obtain ⟨rfl, hcarried⟩ := carryToHost_congr hs hstart.handlers_eq h
      exact ⟨[], (World.copies_of_ne_array hs).2 ⟨hcarried, rfl⟩, .nil _⟩

/-- An open engine copies every value whose arrays do not contain themselves. -/
theorem Engine.Open.toHost_copies {eng : Engine} {s : Script.Value} (hopen : eng.Open)
    (hs : s.Unfolds w) :
    ∃ v w₁ lists, eng.toHost s w = .ok v w₁ ∧ w.Copies w₁ (w.arrays.size + 1) s v lists ∧
      w.Makes w₁ lists := by
  obtain ⟨v, w₁, hv⟩ := hopen.toHost_eq_ok hs
  have hcarried := hv
  rw [toHost_eq_carryToHost (hopen.toHost w s)] at hcarried
  obtain ⟨lists, hcopies, hmakes⟩ := exists_copies_of_carryToHost (refl w) hcarried
  exact ⟨v, w₁, lists, hv, hcopies, hmakes⟩

end Making

end Membrane
