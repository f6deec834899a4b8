import Membrane.StringForm
import Mathlib.Data.List.Basic
import Mathlib.Data.Option.Basic

/-!
# Texts that are there and texts that are not

A value has a text unless a script array leads back to itself, or unless a collection is locked that
would have to be read. What a computation does that needs the texts of some values is told by the
world alone: it has them all and goes on in the same world, or one of them is not there and it does
not end. What is written depends on the storage and the classes of objects, and on what script
values stand for, and on nothing else of the world.

Source: specification, section 3.

## Main definitions

* `World.HasText`: a value has a text.
* `Collection.text`: the text of a collection, given those of its values.

## Main results

* `Run.mapM_of_forall`, `Run.mapM_of_exists`: computations that need one text each, one after the
  other.
* `World.hostText?_congr`: worlds in which the texts are the same.
* `World.hostText?_of_locked`: a lock changes no text.
-/

namespace Membrane

open Host (Value)

/-- All of some optional values are there just if they are the optional values of a list. -/
theorem mapM_eq_some_iff {α β : Type} {f : α → Option β} {xs : List α} {ys : List β} :
    xs.mapM f = some ys ↔ xs.map f = ys.map some := by
  induction xs generalizing ys with
  | nil => cases ys <;> simp
  | cons x xs ih =>
    rw [List.mapM_cons]
    simp only [Option.pure_def, Option.bind_eq_bind, Option.bind_eq_some_iff, Option.some.injEq, ih]
    cases ys with
    | nil => simp
    | cons y ys =>
      simp only [List.cons.injEq, List.map_cons]
      constructor
      · rintro ⟨_, hx, _, hxs, rfl, rfl⟩
        exact ⟨hx, hxs⟩
      · rintro ⟨hx, hxs⟩
        exact ⟨y, hx, ys, hxs, rfl, rfl⟩

/-- Optional values that are there stay there, each as it is. -/
theorem mapM_mono {α β : Type} {f g : α → Option β} {xs : List α} {ys : List β}
    (h : ∀ x ∈ xs, ∀ y, f x = some y → g x = some y) (hxs : xs.mapM f = some ys) :
    xs.mapM g = some ys := by
  rw [mapM_eq_some_iff] at hxs ⊢
  rw [← hxs]
  refine List.map_congr_left fun x hx => ?_
  have hmem : f x ∈ ys.map some := hxs ▸ List.mem_map_of_mem hx
  obtain ⟨y, -, hy⟩ := List.mem_map.1 hmem
  rw [← hy, h x hx y hy.symm]

theorem mapM_eq_some_map {α β : Type} {f : α → Option β} {g : α → β} {xs : List α}
    (h : ∀ x ∈ xs, f x = some (g x)) : xs.mapM f = some (xs.map g) := by
  rw [mapM_eq_some_iff, List.map_map]
  exact List.map_congr_left h

theorem isSome_mapM_iff {α β : Type} {f : α → Option β} {xs : List α} :
    (xs.mapM f).isSome ↔ ∀ x ∈ xs, (f x).isSome := by
  constructor
  · intro h x hx
    obtain ⟨ys, hys⟩ := Option.isSome_iff_exists.1 h
    have hmem : f x ∈ ys.map some := mapM_eq_some_iff.1 hys ▸ List.mem_map_of_mem hx
    obtain ⟨y, -, hy⟩ := List.mem_map.1 hmem
    rw [← hy, Option.isSome_some]
  · induction xs with
    | nil => exact fun _ => rfl
    | cons x xs ih =>
      intro h
      obtain ⟨y, hy⟩ := Option.isSome_iff_exists.1 (h x List.mem_cons_self)
      obtain ⟨ys, hys⟩ :=
        Option.isSome_iff_exists.1 (ih fun x' hx' => h x' (List.mem_cons_of_mem x hx'))
      rw [List.mapM_cons, hy, hys]
      rfl

theorem isSome_bind_some_iff {α β : Type} {o : Option α} {g : α → β} :
    (o >>= fun a => some (g a)).isSome ↔ o.isSome := by
  cases o <;> rfl

theorem mapM_congr {α β : Type} {f g : α → Option β} {xs : List α} (h : ∀ x ∈ xs, f x = g x) :
    xs.mapM f = xs.mapM g := by
  induction xs with
  | nil => rfl
  | cons x xs ih =>
    rw [List.mapM_cons, List.mapM_cons, h x List.mem_cons_self,
      ih fun x' hx' => h x' (List.mem_cons_of_mem x hx')]

namespace World

/-- A value has a text. -/
def HasText (w : World) (v : Value) : Prop := (w.hostText? v).isSome

instance (w : World) (v : Value) : Decidable (w.HasText v) :=
  inferInstanceAs (Decidable ((w.hostText? v).isSome = true))

variable {w : World} {v : Value} {s : String}

theorem HasText.eq (h : w.HasText v) : w.hostText? v = some (w.hostText v) := by
  obtain ⟨s, hs⟩ := Option.isSome_iff_exists.1 h
  rw [hostText, hs, Option.getD_some]

theorem hasText_of_eq (h : w.hostText? v = some s) : w.HasText v ∧ w.hostText v = s := by
  rw [HasText, hostText, h]
  exact ⟨rfl, rfl⟩

/-- A computation that quotes a value with a text ends with a fault. -/
theorem HasText.haltAbout (h : w.HasText v) (fault : String → Fault) :
    w.haltAbout v fault = .fault (fault (w.hostText v)) := by
  rw [World.haltAbout, h.eq]

theorem exists_of_haltAbout_eq_fault {fault : String → Fault} {locked : List (Ref .object)}
    {f : Fault}
    (h : w.haltAbout v fault locked = .fault f) : ∃ text, f = fault text := by
  unfold World.haltAbout at h
  split at h
  · next text _ =>
    cases h
    exact ⟨text, rfl⟩
  · cases h

theorem haltAbout_eq_exhausted_iff {fault : String → Fault} {locked : List (Ref .object)} :
    w.haltAbout v fault locked = .exhausted ↔ w.hostText? v locked = none := by
  unfold World.haltAbout
  cases w.hostText? v locked <;> simp

theorem not_hasText_iff : ¬w.HasText v ↔ w.hostText? v = none := by
  simp [HasText]

end World

/-! ### Computations that need texts -/

namespace Run

variable {α β : Type}

theorem hostText_of_hasText {w : World} {v : Value} (h : w.HasText v) :
    hostText v [] w = .ok (w.hostText v) w := by
  change orExhausted (w.hostText? v) w = _
  rw [h.eq]
  rfl

theorem hostText_of_not_hasText {w : World} {v : Value} (h : ¬w.HasText v) :
    hostText v [] w = .error .exhausted w := by
  change orExhausted (w.hostText? v) w = _
  rw [World.not_hasText_iff.1 h]
  rfl

/-- Nothing goes on with a fault. -/
theorem raiseAbout_bind (v : Value) (fault : String → Fault) (locked : List (Ref .object))
    (f : α → Run β) : raiseAbout v fault locked >>= f = raiseAbout v fault locked := rfl

variable {f : α → Run β} {g : α → β} {p : α → Prop} {w : World} {l : List α}

/-- Computations that all look at the world and give a value have the list of the values. -/
theorem mapM_of_forall (hok : ∀ a, p a → f a w = .ok (g a) w) (h : ∀ a ∈ l, p a) :
    l.mapM f w = .ok (l.map g) w := by
  induction l with
  | nil => rfl
  | cons a l ih =>
    have hrest := ih fun a' ha' => h a' (List.mem_cons_of_mem a ha')
    rw [List.mapM_cons]
    simp only [bind, EStateM.bind, hok a (h a List.mem_cons_self), hrest]
    rfl

/-- If one of some computations that look at the world does not end, the list of their values is
never there. -/
theorem mapM_of_exists (hok : ∀ a, p a → f a w = .ok (g a) w)
    (hnot : ∀ a, ¬p a → f a w = .error .exhausted w) (h : ∃ a ∈ l, ¬p a) :
    l.mapM f w = .error .exhausted w := by
  induction l with
  | nil =>
    obtain ⟨a, ha, -⟩ := h
    cases ha
  | cons a l ih =>
    rw [List.mapM_cons]
    by_cases ha : p a
    · obtain ⟨a', ha', hnot'⟩ := h
      have hrest := ih ⟨a', (List.mem_cons.1 ha').resolve_left fun heq => hnot' (heq ▸ ha), hnot'⟩
      simp only [bind, EStateM.bind, hok a ha, hrest]
    · simp only [bind, EStateM.bind, hnot a ha]

end Run

/-! ### What texts depend on -/

namespace Collection

/-- The text of a collection whose values have texts. -/
def text (c : Collection) (textOf : Value → String) : String :=
  c.opening ++ joinTexts ", " (c.elements.map fun values => joinTexts "=" (values.map textOf)) ++
    c.closing

variable {c : Collection} {f g : Value → Option String} {s : String}

theorem write?_of_forall {textOf : Value → String}
    (h : ∀ values ∈ c.elements, ∀ v ∈ values, f v = some (textOf v)) :
    c.write? f = some (c.text textOf) := by
  have hparts : c.elements.mapM (fun values => do return joinTexts "=" (← values.mapM f)) =
      some (c.elements.map fun values => joinTexts "=" (values.map textOf)) :=
    mapM_eq_some_map fun values hvalues => by rw [mapM_eq_some_map (h values hvalues)]; rfl
  rw [write?, hparts]
  rfl

/-- A collection has a text just if its values have. -/
theorem isSome_write?_iff :
    (c.write? f).isSome ↔ ∀ values ∈ c.elements, ∀ v ∈ values, (f v).isSome :=
  isSome_bind_some_iff.trans <| isSome_mapM_iff.trans <|
    forall₂_congr fun _ _ => isSome_bind_some_iff.trans isSome_mapM_iff

theorem write?_congr (h : ∀ values ∈ c.elements, ∀ v ∈ values, f v = g v) :
    c.write? f = c.write? g := by
  unfold write?
  rw [mapM_congr fun values hvalues => by rw [mapM_congr (h values hvalues)]]

theorem write?_mono (h : ∀ values ∈ c.elements, ∀ v ∈ values, ∀ s, f v = some s → g v = some s)
    (hs : c.write? f = some s) : c.write? g = some s := by
  obtain ⟨texts, htexts, hs⟩ := Option.bind_eq_some_iff.1 hs
  refine Option.bind_eq_some_iff.2 ⟨texts, mapM_mono (fun values hvalues t ht => ?_) htexts, hs⟩
  obtain ⟨parts, hparts, ht⟩ := Option.bind_eq_some_iff.1 ht
  exact Option.bind_eq_some_iff.2 ⟨parts, mapM_mono (h values hvalues) hparts, ht⟩

end Collection

namespace World

variable {w w' : World}

@[simp] theorem write_text (w : World) (locked : List (Ref .object)) (n : Nat)
    (outer : List (Ref .object)) (inner : List (Ref .array)) (s : String) :
    w.write locked n outer inner (.text s) = some s := by
  cases n <;> rfl

/-- What is written depends on the storage and classes of objects, and on what script values stand
for. -/
theorem write_congr (hdata : ∀ r, (w'.objects.get? r).map (fun o => (o.data, o.cls)) =
      (w.objects.get? r).map fun o => (o.data, o.cls))
    (haddress : w'.firstAddress = w.firstAddress) (harrays : w'.arrays = w.arrays)
    (hscript : w'.writeScript = w.writeScript) (locked : List (Ref .object)) (n : Nat)
    (outer : List (Ref .object)) (inner : List (Ref .array)) (x : Writing) :
    w'.write locked n outer inner x = w.write locked n outer inner x := by
  have hhost : w'.writeHost = w.writeHost := by
    funext v
    simp only [writeHost, hscript]
  induction n generalizing outer inner x with
  | zero => cases x <;> rfl
  | succ n ih =>
    match x with
    | .text s => rfl
    | .place (.array r) => simp only [write, ih, harrays, hscript]
    | .place (.object r) =>
      have hr := hdata r
      simp only [write, ih, hhost, plainText, address, haddress]
      cases ho : w.objects.get? r with
      | none =>
        rw [ho, Option.map_none, Option.map_eq_none_iff] at hr
        rw [hr]
      | some o =>
        rw [ho, Option.map_some, Option.map_eq_some_iff] at hr
        obtain ⟨o', ho', hsame⟩ := hr
        obtain ⟨hdata, hcls⟩ := Prod.mk.inj hsame
        simp only [ho', hdata, hcls]

/-- The texts of values are the same where storage and classes of objects, script arrays and what
script values stand for are the same. -/
theorem hostText?_congr (hdata : ∀ r, (w'.objects.get? r).map (fun o => (o.data, o.cls)) =
      (w.objects.get? r).map fun o => (o.data, o.cls))
    (hsize : w'.objects.size = w.objects.size) (haddress : w'.firstAddress = w.firstAddress)
    (harrays : w'.arrays = w.arrays) (hscript : w'.writeScript = w.writeScript) (v : Value)
    (locked : List (Ref .object)) : w'.hostText? v locked = w.hostText? v locked := by
  unfold hostText? depth
  rw [write_congr hdata haddress harrays hscript, hsize, harrays]
  cases v with
  | script s => rw [writeHost, writeHost, hscript]
  | _ => rfl

/-! ### What has a text -/

section Presence

variable {n : Nat} {outer : List (Ref .object)} {inner : List (Ref .array)}

/-- A script array is written if it is not being written already and its items are. -/
theorem isSome_write_array_iff {r : Ref .array} :
    (w.write [] (n + 1) outer inner (.place (.array r))).isSome ↔
      r ∉ inner ∧ ∀ v ∈ (w.arrays.get? r).getD [], v.isNullish = false →
        (w.write [] n outer (r :: inner) (w.writeScript v)).isSome := by
  have hitem (v : Script.Value) :
      ((if v.isNullish then some "" else w.write [] n outer (r :: inner) (w.writeScript v) :
        Option String)).isSome ↔ (v.isNullish = false →
          (w.write [] n outer (r :: inner) (w.writeScript v)).isSome) := by
    cases v.isNullish <;> simp
  rw [write, ← Ref.isIn_iff]
  by_cases hr : r.isIn inner = true
  · simp [hr]
  · rw [if_neg hr]
    refine isSome_bind_some_iff.trans (isSome_mapM_iff.trans ?_)
    simp only [hitem, hr, Bool.false_eq_true, not_false_eq_true, true_and]

/-- An object is written if it is no collection, or one that is being written already, or if what it
holds is. -/
theorem isSome_write_object_iff {r : Ref .object} :
    (w.write [] (n + 1) outer inner (.place (.object r))).isSome ↔
      ∀ o, w.objects.get? r = some o → ∀ c, o.data.collection? = some c → r ∉ outer →
        ∀ values ∈ c.elements, ∀ v ∈ values,
          (w.write [] n (r :: outer) [] (w.writeHost v)).isSome := by
  rw [write]
  cases w.objects.get? r with
  | none => simp
  | some o =>
    simp only [Option.some.injEq, forall_eq']
    cases o.data.collection? with
    | none => simp
    | some c =>
      simp only [Option.some.injEq, forall_eq', Ref.isIn_iff]
      by_cases hr : r ∈ outer
      · simp [hr]
      · simp only [hr, if_false, List.not_mem_nil, not_false_eq_true, true_imp_iff]
        exact Collection.isSome_write?_iff

/-- Where collections hold no more than before, what has been written is still written. -/
theorem isSome_write_of_subset
    (hobjects : ∀ r o', w'.objects.get? r = some o' → ∃ o, w.objects.get? r = some o ∧
      ∀ c', o'.data.collection? = some c' →
        ∃ c, o.data.collection? = some c ∧ c'.elements ⊆ c.elements)
    (harrays : w'.arrays = w.arrays) (hscript : w'.writeScript = w.writeScript) {x : Writing}
    (h : (w.write [] n outer inner x).isSome) : (w'.write [] n outer inner x).isSome := by
  have hhost : w'.writeHost = w.writeHost := by
    funext v
    simp only [writeHost, hscript]
  induction n generalizing outer inner x with
  | zero => cases x <;> exact h
  | succ n ih =>
    match x with
    | .text s => rfl
    | .place (.array r) =>
      obtain ⟨hr, hitems⟩ := isSome_write_array_iff.1 h
      refine isSome_write_array_iff.2 ⟨hr, fun v hv hnull => ?_⟩
      rw [harrays] at hv
      rw [hscript]
      exact ih (hitems v hv hnull)
    | .place (.object r) =>
      refine isSome_write_object_iff.2 fun o' ho' c' hc' hr values hvalues v hv => ?_
      obtain ⟨o, ho, hless⟩ := hobjects r o' ho'
      obtain ⟨c, hc, hsubset⟩ := hless c' hc'
      rw [hhost]
      exact ih (isSome_write_object_iff.1 h o ho c hc hr values (hsubset hvalues) v hv)

end Presence

/-- An object that is not there has a text. -/
theorem hasText_of_missing {r : Ref .object} (h : w.objects.get? r = none) :
    w.HasText (.object r) := by
  have htext : w.hostText? (.object r) = some "" := by
    simp only [hostText?, depth, write, writeHost, writeTarget, h]
  exact (hasText_of_eq htext).1

/-! ### Locks -/

/-- A lock changes nothing of what is written. -/
theorem write_of_locked {locked : List (Ref .object)} {n : Nat} {outer : List (Ref .object)}
    {inner : List (Ref .array)} {x : Writing} {s : String}
    (h : w.write locked n outer inner x = some s) : w.write [] n outer inner x = some s := by
  induction n generalizing outer inner x s with
  | zero => cases x <;> exact h
  | succ n ih =>
    match x with
    | .text t => exact h
    | .place (.array r) =>
      simp only [write] at h ⊢
      split at h
      · cases h
      · next hr =>
        obtain ⟨texts, htexts, hs⟩ := Option.bind_eq_some_iff.1 h
        rw [if_neg hr]
        refine Option.bind_eq_some_iff.2 ⟨texts, mapM_mono (fun v _ t hv => ?_) htexts, hs⟩
        split at hv
        · next hnull => rwa [if_pos hnull]
        · next hnull => rw [if_neg hnull, ih hv]
    | .place (.object r) =>
      simp only [write] at h ⊢
      split at h
      · exact h
      · split at h
        · exact h
        · split at h
          · next houter => rwa [if_pos houter]
          · next houter =>
            split at h
            · cases h
            · rw [if_neg houter, if_neg (by simp [Ref.isIn])]
              exact Collection.write?_mono (fun _ _ v _ t hv => ih hv) h

/-- A lock changes no text, it can only keep it from being written. -/
theorem hostText?_of_locked {locked : List (Ref .object)} {v : Value} {s : String}
    (h : w.hostText? v locked = some s) : w.hostText? v = some s := write_of_locked h

/-- A collection that is locked can not be written. -/
theorem hostText?_of_mem_locked {locked : List (Ref .object)} {r : Ref .object} {o : Host.Object}
    {c : Collection} (ho : w.objects.get? r = some o) (hc : o.data.collection? = some c)
    (hr : r ∈ locked) : w.hostText? (.object r) locked = none := by
  have hlocked : r.isIn locked = true := Ref.isIn_iff.2 hr
  simp only [hostText?, depth, write, writeHost, writeTarget, ho, hc, hlocked, if_true]
  rfl

end World

end Membrane
