import Mathlib.Data.Finset.Card
import Mathlib.Logic.Relation
import Membrane.Holding
import Membrane.Proofs.Quiet

/-!
# The writing of host values

The string form of a value is given by recursion on a bound. Beside it stands what a writer does
without any: it goes through what is left to write, keeps the collections it is in the middle of on
a path, and takes the innermost from the path when it is done with it. As long as the host objects
hold no script arrays, the writer ends on every value, whatever refers to what, with the string form
as its text and with the path it began with. On its way it enters no collection that it is still in
the middle of. Such a collection is only named, as a map or as a collection.

What the writer ends by is the number of objects that are not on the path.

## Main definitions

* `World.textInside`: the text of a value while the collections of a path are being written.
* `World.form`: what is seen of a value by a writer, a text or a collection with its segments.
* `Formatting`, `Formatting.Step`: a writer and its steps.

## Main results

* `World.textInside_of_collection`: the text of a collection, without a bound.
* `Formatting.steps_value`: a value is written and the path is as before, whatever is to follow.
* `Formatting.Step.inside`: what a step keeps of the path.
* `formatting_ends`: writing a host value ends.
-/

namespace Membrane

open Host (Value Data)

/-! ### What is seen of a value -/

namespace Host

/-- A segment of what is written for a collection. -/
inductive Segment where
  | text (s : String)
  | value (v : Value)
  deriving DecidableEq

/-- The text of some segments, given the texts of values. -/
def Segment.join (textOf : Value → String) : List Segment → String
  | [] => ""
  | .text s :: rest => s ++ join textOf rest
  | .value v :: rest => textOf v ++ join textOf rest

/-- The segments of a collection: its elements, each given by segments, between brackets. -/
def Segment.bracketed (opening : String) (elements : List (List Segment)) (closing : String) :
    List Segment :=
  .text opening :: (elements.intersperse [.text ", "]).flatten ++ [.text closing]

/-- The segments of a collection. A map is in braces, any other collection in square brackets. -/
def Data.segments? : Data → Option (List Segment)
  | .plain | .classRef _ => none
  | .list items | .array items =>
    some (Segment.bracketed "[" (items.toList.map fun v => [.value v]) "]")
  | .set members => some (Segment.bracketed "[" (members.map fun v => [.value v]) "]")
  | .map entries =>
    some (Segment.bracketed "\x7b"
      (entries.map fun e => [.value e.1, .text "=", .value e.2]) "\x7d")

/-- What stands for a collection inside itself. -/
def Data.marker : Data → String
  | .map _ => "(this Map)"
  | _ => "(this Collection)"

/-- The text of a collection, given the texts of values. -/
def Data.expansion? (textOf : Value → String) : Data → Option String
  | .plain | .classRef _ => none
  | .list items | .array items => some ("[" ++ joinTexts ", " (items.toList.map textOf) ++ "]")
  | .set members => some ("[" ++ joinTexts ", " (members.map textOf) ++ "]")
  | .map entries =>
    some ("\x7b" ++ joinTexts ", " (entries.map fun e => textOf e.1 ++ "=" ++ textOf e.2) ++ "\x7d")

/-- Neither a script array nor anything that stands for one. -/
def Value.IsNotArray (v : Value) : Prop := ∀ r, v ≠ .script (.array r)

/-- The text of a collection is that of what stands between its brackets. -/
theorem Data.expansion?_eq_collection? {textOf : Value → String} (data : Data) :
    data.expansion? textOf = data.collection?.map (·.text textOf) := by
  cases data <;> simp [expansion?, collection?, Collection.text, joinTexts, Function.comp_def,
    String.append_assoc]

theorem Data.marker_eq_of_collection? {data : Data} {c : Collection}
    (h : data.collection? = some c) : c.marker = data.marker := by
  cases data <;> cases h <;> rfl

/-- The values of a collection are what is held in its storage. -/
theorem Data.mem_values_of_mem_elements {data : Data} {c : Collection}
    (h : data.collection? = some c) {values : List Value} (hvalues : values ∈ c.elements)
    {v : Value}
    (hv : v ∈ values) : v ∈ data.values := by
  cases data <;> cases h <;> obtain ⟨x, hx, rfl⟩ := List.mem_map.1 hvalues
  case map entries =>
    rcases List.mem_pair.1 hv with rfl | rfl
    · exact List.mem_append_left _ (List.mem_map_of_mem hx)
    · exact List.mem_append_right _ (List.mem_map_of_mem hx)
  all_goals
    obtain rfl := List.mem_singleton.1 hv
    exact hx

section Segments

variable {textOf : Value → String}

theorem Segment.join_append (xs ys : List Segment) :
    join textOf (xs ++ ys) = join textOf xs ++ join textOf ys := by
  induction xs with
  | nil => simp [join]
  | cons x xs ih => cases x <;> simp [join, ih, String.append_assoc]

theorem Segment.join_intersperse (elements : List (List Segment)) :
    join textOf (elements.intersperse [.text ", "]).flatten =
      joinTexts ", " (elements.map (join textOf)) := by
  induction elements with
  | nil => rfl
  | cons x rest ih =>
    cases rest with
    | nil => simp [joinTexts]
    | cons y rest =>
      simp only [List.intersperse_cons_cons, List.flatten_cons, List.map_cons, joinTexts,
        join_append] at ih ⊢
      rw [ih]
      simp [join, String.append_assoc]

theorem Segment.join_bracketed (opening : String) (elements : List (List Segment))
    (closing : String) : join textOf (bracketed opening elements closing) =
      opening ++ joinTexts ", " (elements.map (join textOf)) ++ closing := by
  simp [bracketed, join, join_append, join_intersperse, String.append_assoc]

/-- The segments of a collection make up its text. -/
theorem Data.expansion?_eq (data : Data) :
    data.expansion? textOf = data.segments?.map (Segment.join textOf) := by
  cases data <;>
    simp [expansion?, segments?, Segment.join_bracketed, Segment.join, Function.comp_def,
      String.append_assoc]

end Segments

theorem Segment.value_mem_bracketed {opening closing : String} {elements : List (List Segment)}
    {v : Value} (h : .value v ∈ bracketed opening elements closing) :
    ∃ element ∈ elements, .value v ∈ element := by
  have hmem : ∀ xss : List (List Segment),
      .value v ∈ (xss.intersperse [.text ", "]).flatten → ∃ xs ∈ xss, .value v ∈ xs := by
    intro xss
    induction xss with
    | nil => simp
    | cons x rest ih =>
      cases rest with
      | nil => simp
      | cons y rest =>
        simp only [List.intersperse_cons_cons, List.flatten_cons, List.mem_append]
        rintro (hx | hsep | hrest)
        · exact ⟨x, List.mem_cons_self, hx⟩
        · simp at hsep
        · obtain ⟨xs, hxs, hv⟩ := ih hrest
          exact ⟨xs, List.mem_cons_of_mem _ hxs, hv⟩
  exact hmem elements (by simpa [bracketed] using h)

/-- The values among the segments of a collection are what it holds. -/
theorem Data.mem_values_of_mem_segments {data : Data} {segments : List Segment}
    (h : data.segments? = some segments) {v : Value} (hv : .value v ∈ segments) :
    v ∈ data.values := by
  cases data <;> cases h <;> obtain ⟨element, helement, hv⟩ := Segment.value_mem_bracketed hv <;>
    obtain ⟨x, hx, rfl⟩ := List.mem_map.1 helement
  case map entries =>
    simp only [List.mem_cons, Segment.value.injEq, reduceCtorEq, false_or, List.not_mem_nil,
      or_false] at hv
    rcases hv with rfl | rfl
    · exact List.mem_append_left _ (List.mem_map_of_mem hx)
    · exact List.mem_append_right _ (List.mem_map_of_mem hx)
  all_goals
    obtain rfl : v = x := by simpa using hv
    exact hx

end Host

open Host (Segment)

/-! ### The text without a bound -/

namespace World

/-- No host object holds a script array. -/
def HoldsNoArrays (w : World) : Prop :=
  ∀ r o, w.objects.get? r = some o → ∀ v ∈ o.data.values, v.IsNotArray

/-- The text of a value while the collections of a path are being written, if it has one. -/
def textInside? (w : World) (path : List (Ref .object)) (v : Value) : Option String :=
  w.write [] w.depth path [] (w.writeHost v)

/-- The text of a value while the collections of a path are being written. -/
def textInside (w : World) (path : List (Ref .object)) (v : Value) : String :=
  (w.textInside? path v).getD ""

/-- The number of objects that are not on a path. -/
def remaining (w : World) (path : List (Ref .object)) : Nat :=
  ((Finset.range w.objects.size).filter fun i => (⟨i⟩ : Ref .object) ∉ path).card

variable {w : World} {path : List (Ref .object)} {r : Ref .object} {o : Host.Object} {v : Value}

theorem remaining_le_size (w : World) (path : List (Ref .object)) :
    w.remaining path ≤ w.objects.size :=
  (Finset.card_filter_le _ _).trans (Finset.card_range _).le

/-- With each collection that is entered there is one object less to enter. -/
theorem remaining_cons_lt (ho : w.objects.get? r = some o) (hr : r ∉ path) :
    w.remaining (r :: path) < w.remaining path := by
  have hsize : r.index < w.objects.size := (Array.getElem?_eq_some_iff.1 ho).1
  refine Finset.card_lt_card ((Finset.ssubset_iff_of_subset ?_).2 ⟨r.index, ?_, ?_⟩)
  · exact Finset.monotone_filter_right _ fun i _ hi hmem => hi (List.mem_cons_of_mem _ hmem)
  · exact Finset.mem_filter.2 ⟨Finset.mem_range.2 hsize, hr⟩
  · exact fun hmem => (Finset.mem_filter.1 hmem).2 List.mem_cons_self

theorem remaining_lt_depth (w : World) (path : List (Ref .object)) :
    w.remaining path + 1 < w.depth := by
  have hle := w.remaining_le_size path
  have hmul : w.objects.size + 1 ≤ (w.objects.size + 1) * (w.arrays.size + 1) :=
    Nat.le_mul_of_pos_right _ (Nat.succ_pos _)
  unfold depth
  omega

theorem writeTarget_ne_array (v : Value) (a : Ref .array) : writeTarget v ≠ .place (.array a) := by
  intro h
  cases v <;> cases h

/-- Only a script array is written as one. -/
theorem writeHost_ne_array (hv : v.IsNotArray) (a : Ref .array) :
    w.writeHost v ≠ .place (.array a) := by
  intro h
  cases v with
  | script s =>
    cases s with
    | array a' => exact absurd rfl (hv a')
    | proxy p =>
      simp only [writeHost, writeScript] at h
      cases hp : w.handlers.get? p <;> rw [hp] at h
      · cases h
      · exact writeTarget_ne_array _ _ h
    | _ => cases h
  | _ => cases h

/-- What is written for an object whose elements have texts with one less to the bound. -/
theorem write_object {textOf : Value → String} {n : Nat} (ho : w.objects.get? r = some o)
    (inner : List (Ref .array)) (hparts : r ∉ path → ∀ v ∈ o.data.values,
      w.write [] n (r :: path) [] (w.writeHost v) = some (textOf v)) :
    w.write [] (n + 1) path inner (.place (.object r)) =
      some ((o.data.expansion? textOf).elim (w.plainText r o)
        fun s => if r ∈ path then o.data.marker else s) := by
  simp only [write, ho, Ref.isIn_iff, List.not_mem_nil, if_false, Data.expansion?_eq_collection?]
  cases hc : o.data.collection? with
  | none => rfl
  | some c =>
    change (if r ∈ path then some c.marker else c.write? _) = some (if r ∈ path then _ else _)
    by_cases hr : r ∈ path
    · rw [if_pos hr, if_pos hr, Data.marker_eq_of_collection? hc]
    · rw [if_neg hr, if_neg hr]
      exact Collection.write?_of_forall fun values hvalues v hv =>
        hparts hr v (Data.mem_values_of_mem_elements hc hvalues hv)

/-- As long as no object holds a script array, anything but one has a text. Beyond the number of
objects that are not on the path, the bound does not matter. -/
theorem exists_write_eq (hheap : w.HoldsNoArrays) (path : List (Ref .object)) {x : Writing}
    (hx : ∀ a, x ≠ .place (.array a)) :
    ∃ s, ∀ n, w.remaining path < n → w.write [] n path [] x = some s := by
  -- Each collection that is entered leaves one object less to enter.
  induction hn : w.remaining path using Nat.strong_induction_on generalizing path x with
  | _ m ih =>
  match x with
  | .text s => exact ⟨s, fun n _ => w.write_text [] n path [] s⟩
  | .place (.array a) => exact absurd rfl (hx a)
  | .place (.object r) =>
    cases ho : w.objects.get? r with
    | none =>
      refine ⟨"", fun n hn => ?_⟩
      obtain ⟨n, rfl⟩ : ∃ n', n = n' + 1 := ⟨n - 1, by omega⟩
      simp only [write, ho]
    | some o =>
      -- The text of an element at any bound that is large enough is the one at a bound that is.
      have helement : r ∉ path → ∀ n, m ≤ n → ∀ v ∈ o.data.values,
          w.write [] n (r :: path) [] (w.writeHost v) =
            some ((w.write [] m (r :: path) [] (w.writeHost v)).getD "") := by
        intro hr n hmn v hv
        have hlt := hn ▸ remaining_cons_lt ho hr
        obtain ⟨s, hs⟩ := ih _ hlt (r :: path) (writeHost_ne_array (hheap r o ho v hv)) rfl
        rw [hs n (by omega), hs m hlt, Option.getD_some]
      obtain ⟨s, hs⟩ : ∃ s, ∀ n, m ≤ n →
          w.write [] (n + 1) path [] (.place (.object r)) = some s :=
        ⟨_, fun n hmn => write_object ho [] fun hr => helement hr n hmn⟩
      refine ⟨s, fun n hn => ?_⟩
      obtain ⟨n, rfl⟩ : ∃ n', n = n' + 1 := ⟨n - 1, by omega⟩
      exact hs n (by omega)

theorem textInside?_eq (hheap : w.HoldsNoArrays) (hv : v.IsNotArray) (path : List (Ref .object)) :
    w.textInside? path v = some (w.textInside path v) := by
  obtain ⟨s, hs⟩ := exists_write_eq hheap path (writeHost_ne_array (w := w) hv)
  have hlt := w.remaining_lt_depth path
  rw [textInside, textInside?, hs w.depth (by omega), Option.getD_some]

/-- The text of an object, given the texts of what it holds one collection further in. -/
theorem textInside_object (hheap : w.HoldsNoArrays) (hv : w.writeHost v = .place (.object r))
    (ho : w.objects.get? r = some o) :
    w.textInside path v = (o.data.expansion? (w.textInside (r :: path))).elim (w.plainText r o)
      fun s => if r ∈ path then o.data.marker else s := by
  obtain ⟨n, hn⟩ : ∃ n, w.depth = n + 1 := ⟨w.depth - 1, rfl⟩
  have hlt := w.remaining_lt_depth (r :: path)
  rw [textInside, textInside?, hv, hn, write_object ho [] fun _ v hv => ?_, Option.getD_some]
  obtain ⟨s, hs⟩ := exists_write_eq hheap (r :: path) (writeHost_ne_array (hheap r o ho v hv))
  rw [textInside, textInside?, hs n (by omega), hs w.depth (by omega), Option.getD_some]

end World

/-! ### What a writer sees -/

/-- What a writer sees of a value. -/
inductive Form where
  /-- A text. -/
  | text (s : String)
  /-- A collection, what stands for it inside itself, and its segments. -/
  | collection (r : Ref .object) (marker : String) (segments : List Segment)
  /-- A script array. -/
  | array (r : Ref .array)

namespace World

/-- What a writer sees of a value. -/
def form (w : World) (v : Value) : Form :=
  match w.writeHost v with
  | .text s => .text s
  | .place (.array r) => .array r
  | .place (.object r) =>
    match w.objects.get? r with
    | none => .text ""
    | some o =>
      match o.data.segments? with
      | none => .text (w.plainText r o)
      | some segments => .collection r o.data.marker segments

variable {w : World} {path : List (Ref .object)} {r : Ref .object} {v : Value}
  {marker : String} {segments : List Segment}

theorem form_ne_array (hv : v.IsNotArray) (a : Ref .array) : w.form v ≠ .array a := by
  intro h
  unfold form at h
  split at h
  · cases h
  · next hwrite => exact writeHost_ne_array hv _ hwrite
  · split at h
    · cases h
    · split at h <;> cases h

theorem exists_object_of_form (h : w.form v = .collection r marker segments) :
    ∃ o, w.writeHost v = .place (.object r) ∧ w.objects.get? r = some o ∧
      o.data.segments? = some segments ∧ o.data.marker = marker := by
  unfold form at h
  split at h
  · cases h
  · cases h
  · next r' hwrite =>
    split at h
    · cases h
    · next o ho =>
      split at h
      · cases h
      · next hsegments =>
        cases h
        exact ⟨o, hwrite, ho, hsegments, rfl⟩

theorem textInside_of_text (hheap : w.HoldsNoArrays) {s : String} (h : w.form v = .text s) :
    w.textInside path v = s := by
  unfold form at h
  split at h
  · next hwrite =>
    cases h
    rw [textInside, textInside?, hwrite, write_text, Option.getD_some]
  · cases h
  · next r hwrite =>
    split at h
    · next ho =>
      cases h
      simp only [textInside, textInside?, hwrite, depth, write, ho, Option.getD_some]
    · next o ho =>
      split at h
      · next hsegments =>
        cases h
        rw [textInside_object hheap hwrite ho, Data.expansion?_eq, hsegments]
        rfl
      · cases h

/-- The text of a collection: what stands for it inside itself if it is being written already, and
else its segments with the texts of its values one collection further in. -/
theorem textInside_of_collection (hheap : w.HoldsNoArrays)
    (h : w.form v = .collection r marker segments) :
    w.textInside path v =
      if r ∈ path then marker else Segment.join (w.textInside (r :: path)) segments := by
  obtain ⟨o, hwrite, ho, hsegments, rfl⟩ := exists_object_of_form h
  rw [textInside_object hheap hwrite ho, Data.expansion?_eq, hsegments]
  rfl

theorem isNotArray_of_collection (hheap : w.HoldsNoArrays)
    (h : w.form v = .collection r marker segments) {x : Value} (hx : .value x ∈ segments) :
    x.IsNotArray := by
  obtain ⟨o, -, ho, hsegments, -⟩ := exists_object_of_form h
  exact hheap r o ho x (Data.mem_values_of_mem_segments hsegments hx)

end World

/-! ### The writer -/

/-- What is left for a writer to do. -/
inductive Task where
  /-- To write a segment. -/
  | segment (s : Segment)
  /-- To be done with the innermost collection. -/
  | leave
  deriving DecidableEq

/-- A writer in the middle of its work. -/
structure Formatting where
  /-- The collections it is in the middle of, the innermost first. -/
  path : List (Ref .object)
  /-- What is left to do, the next first. -/
  agenda : List Task
  /-- What is written. -/
  text : String

namespace Formatting

/-- A step of a writer. -/
inductive Step (w : World) : Formatting → Formatting → Prop
  /-- A text is written. -/
  | text {path : List (Ref .object)} {rest : List Task} {written s : String} :
    Step w ⟨path, .segment (.text s) :: rest, written⟩ ⟨path, rest, written ++ s⟩
  /-- A value that is no collection is written. -/
  | plain {path : List (Ref .object)} {rest : List Task} {written s : String} {v : Value}
      (h : w.form v = .text s) :
    Step w ⟨path, .segment (.value v) :: rest, written⟩ ⟨path, rest, written ++ s⟩
  /-- A collection is met inside itself. -/
  | again {path : List (Ref .object)} {rest : List Task} {written marker : String} {v : Value}
      {r : Ref .object} {segments : List Segment} (h : w.form v = .collection r marker segments)
      (hr : r ∈ path) :
    Step w ⟨path, .segment (.value v) :: rest, written⟩ ⟨path, rest, written ++ marker⟩
  /-- A collection is entered. -/
  | enter {path : List (Ref .object)} {rest : List Task} {written marker : String} {v : Value}
      {r : Ref .object} {segments : List Segment} (h : w.form v = .collection r marker segments)
      (hr : r ∉ path) :
    Step w ⟨path, .segment (.value v) :: rest, written⟩
      ⟨r :: path, segments.map .segment ++ .leave :: rest, written⟩
  /-- The innermost collection is left. -/
  | leave {path : List (Ref .object)} {rest : List Task} {written : String} :
    Step w ⟨path, .leave :: rest, written⟩ ⟨path.tail, rest, written⟩

/-- Any number of steps. -/
abbrev Steps (w : World) : Formatting → Formatting → Prop := Relation.ReflTransGen (Step w)

/-- No run of a writer goes on for ever. -/
def Ends (w : World) (c : Formatting) : Prop := Acc (fun c' c => Step w c c') c

variable {w : World} {c c₁ c₂ d : Formatting} {path : List (Ref .object)} {v : Value}

theorem Step.unique (h₁ : Step w c c₁) (h₂ : Step w c c₂) : c₁ = c₂ := by
  cases h₁ <;> cases h₂ <;> simp_all

theorem Step.agenda_ne_nil (h : Step w c c₁) : c.agenda ≠ [] := by
  cases h <;> exact List.cons_ne_nil _ _

/-- A run that comes to an end is a part of the only one there is. -/
theorem Steps.of_end (h : Steps w c d) (hd : d.agenda = []) (h₁ : Steps w c c₁) :
    Steps w c₁ d := by
  have hunique : Relator.RightUnique (Step w) := fun _ _ _ => Step.unique
  rcases Relation.ReflTransGen.total_of_right_unique hunique h₁ h with h | h
  · exact h
  · rcases h.cases_head with rfl | ⟨_, hstep, -⟩
    · exact .refl
    · exact absurd hd hstep.agenda_ne_nil

theorem Steps.ends (h : Steps w c d) (hd : d.agenda = []) : Ends w c := by
  induction h using Relation.ReflTransGen.head_induction_on with
  | refl => exact ⟨_, fun _ hstep => absurd hd hstep.agenda_ne_nil⟩
  | head hstep _ ih => exact ⟨_, fun _ hstep' => hstep'.unique hstep ▸ ih⟩

/-! ### What is written -/

/-- Segments are written one after the other, if each of their values is. -/
theorem steps_segments {segments : List Segment}
    (hvalue : ∀ v, .value v ∈ segments → ∀ rest written,
      Steps w ⟨path, .segment (.value v) :: rest, written⟩
        ⟨path, rest, written ++ w.textInside path v⟩) (rest : List Task) (written : String) :
    Steps w ⟨path, segments.map .segment ++ rest, written⟩
      ⟨path, rest, written ++ Segment.join (w.textInside path) segments⟩ := by
  induction segments generalizing written with
  | nil => simpa [Segment.join] using Relation.ReflTransGen.refl
  | cons x segments ih =>
    have hsegments := fun written' =>
      ih (fun v hv => hvalue v (List.mem_cons_of_mem _ hv)) written'
    cases x with
    | text s =>
      rw [Segment.join, ← String.append_assoc]
      exact .head .text (hsegments _)
    | value v =>
      rw [Segment.join, ← String.append_assoc]
      exact (hvalue v List.mem_cons_self _ _).trans (hsegments _)

/-- A value is written, and then the path is as it was and the rest is to do. -/
theorem steps_value (hheap : w.HoldsNoArrays) (hv : v.IsNotArray) (path : List (Ref .object))
    (rest : List Task) (written : String) :
    Steps w ⟨path, .segment (.value v) :: rest, written⟩
      ⟨path, rest, written ++ w.textInside path v⟩ := by
  -- Each collection that is entered leaves one object less to enter.
  induction hn : w.remaining path using Nat.strong_induction_on
    generalizing path v rest written with
  | _ n ih =>
  match hform : w.form v with
  | .text s =>
    rw [World.textInside_of_text hheap hform]
    exact .single (.plain hform)
  | .array a => exact absurd hform (World.form_ne_array hv a)
  | .collection r marker segments =>
    rw [World.textInside_of_collection hheap hform]
    by_cases hr : r ∈ path
    · rw [if_pos hr]
      exact .single (.again hform hr)
    · rw [if_neg hr]
      obtain ⟨o, -, ho, -⟩ := World.exists_object_of_form hform
      have hlt := World.remaining_cons_lt ho hr
      have hvalue : ∀ x, .value x ∈ segments → ∀ rest written,
          Steps w ⟨r :: path, .segment (.value x) :: rest, written⟩
            ⟨r :: path, rest, written ++ w.textInside (r :: path) x⟩ := fun x hx rest' written' =>
        ih _ (hn ▸ hlt) (World.isNotArray_of_collection hheap hform hx) _ rest' written' rfl
      exact .head (.enter hform hr) ((steps_segments hvalue (.leave :: rest) written).tail .leave)

/-! ### The path -/

/-- The collections a writer is in the middle of are those of a path and others, each once, that it
is still to leave. -/
def Inside (path : List (Ref .object)) (c : Formatting) : Prop :=
  ∃ entered, c.path = entered ++ path ∧ entered.Nodup ∧ (∀ r ∈ entered, r ∉ path) ∧
    c.agenda.count .leave = entered.length

/-- A step enters a collection that the writer is not in the middle of, or leaves the one it entered
last, or keeps the path. -/
theorem Step.inside (h : Step w c c₁) (hc : Inside path c) : Inside path c₁ := by
  obtain ⟨entered, hpath, hnodup, hnew, hcount⟩ := hc
  cases h with
  | text => exact ⟨entered, hpath, hnodup, hnew, by simpa using hcount⟩
  | plain => exact ⟨entered, hpath, hnodup, hnew, by simpa using hcount⟩
  | again => exact ⟨entered, hpath, hnodup, hnew, by simpa using hcount⟩
  | @enter path' rest written marker v r segments hform hr =>
    have hr' : r ∉ entered ∧ r ∉ path := by simpa [← not_or, ← List.mem_append, ← hpath] using hr
    have hsegments : (segments.map Task.segment).count .leave = 0 :=
      List.count_eq_zero.2 (by simp)
    refine ⟨r :: entered, congrArg (r :: ·) hpath, List.nodup_cons.2 ⟨hr'.1, hnodup⟩,
      List.forall_mem_cons.2 ⟨hr'.2, hnew⟩, ?_⟩
    simp_all
  | @leave path' rest written =>
    cases entered with
    | nil => simp at hcount
    | cons r entered =>
      exact ⟨entered, congrArg List.tail hpath, (List.nodup_cons.1 hnodup).2,
        fun r' hr' => hnew r' (List.mem_cons_of_mem _ hr'), by simpa using hcount⟩

theorem Steps.inside (h : Steps w c d) (hc : Inside path c) : Inside path d := by
  induction h with
  | refl => exact hc
  | tail _ hstep ih => exact hstep.inside ih

end Formatting

/-! ### All values -/

section

variable {w : World} {path : List (Ref .object)} {r : Ref .object} {o : Host.Object}

theorem Host.Object.isSome_size?_iff (o : Host.Object) (textOf : Value → String) :
    o.size?.isSome ↔ (o.data.expansion? textOf).isSome := by
  unfold Host.Object.size?
  cases o.data <;> simp [Data.expansion?]

theorem Host.Data.marker_cases (data : Data) :
    data.marker = "(this Map)" ∨ data.marker = "(this Collection)" := by
  cases data <;> simp [Data.marker]

/-- A text in brackets is no marker. -/
theorem Host.Data.expansion?_ne_marker {textOf : Value → String} {data : Data} {s : String}
    (h : data.expansion? textOf = some s) (data' : Data) : s ≠ data'.marker := by
  have hmarker : data'.marker.toList.head? = some '(' := by
    rcases data'.marker_cases with h | h <;> rw [h] <;> decide
  rintro rfl
  cases data <;> simp only [Data.expansion?, Option.some.injEq, reduceCtorEq] at h <;>
    · rw [← h] at hmarker
      simp at hmarker

/-- The text of an object that is no collection is no marker. -/
theorem World.plainText_ne_marker (w : World) (r : Ref .object) (o : Host.Object) (data : Data) :
    w.plainText r o ≠ data.marker := by
  intro h
  have htext : (w.plainText r o).toList.head? = some 'c' ∨ '@' ∈ (w.plainText r o).toList := by
    unfold World.plainText
    split <;> simp
  rw [h] at htext
  rcases data.marker_cases with hmarker | hmarker <;> rw [hmarker] at htext <;> revert htext <;>
    decide

/-- An object is written as what stands for a collection inside itself just if it is a collection
that is being written. -/
theorem World.textInside_eq_marker_iff (hheap : w.HoldsNoArrays) (ho : w.objects.get? r = some o)
    (data : Data) : w.textInside path (.object r) = data.marker ↔
      r ∈ path ∧ o.size?.isSome ∧ o.data.marker = data.marker := by
  rw [textInside_object hheap rfl ho, o.isSome_size?_iff (w.textInside (r :: path))]
  cases hdata : o.data.expansion? (w.textInside (r :: path)) with
  | none => simp [w.plainText_ne_marker r o data]
  | some s =>
    have hne := Data.expansion?_ne_marker hdata data
    by_cases hr : r ∈ path <;> simp [hr, hne]

end

/-- To write a host value ends, whatever refers to what, as long as no host object holds a script
array. Whatever path the writer begins with, no run of it goes on for ever, each comes to its one
end, where the text is the string form of the value and the path is what it was. At any time on the
way, the collections it has entered and not yet left are different from each other and from those of
the path. A collection that is met while it is being written is written as `(this Map)` if it is a
map and as `(this Collection)` else, and no other object is written so. A collection that is not
being written is expanded wherever it is met. -/
theorem formatting_ends {w : World} (hheap : w.HoldsNoArrays) {v : Value} (hv : v.IsNotArray)
    (path : List (Ref .object)) :
    Formatting.Ends w ⟨path, [.segment (.value v)], ""⟩ ∧
    (∀ c, Formatting.Steps w ⟨path, [.segment (.value v)], ""⟩ c →
      Formatting.Steps w c ⟨path, [], w.textInside path v⟩ ∧
      ∃ entered, c.path = entered ++ path ∧ entered.Nodup ∧ ∀ r ∈ entered, r ∉ path) ∧
    w.hostText? v = some (w.textInside [] v) ∧
    ∀ r o, w.objects.get? r = some o → ∀ inside,
      (w.textInside inside (.object r) = "(this Map)" ↔
        r ∈ inside ∧ ∃ entries, o.data = .map entries) ∧
      (w.textInside inside (.object r) = "(this Collection)" ↔
        r ∈ inside ∧ o.size?.isSome ∧ ∀ entries, o.data ≠ .map entries) ∧
      ∀ s, r ∉ inside → o.data.expansion? (w.textInside (r :: inside)) = some s →
        w.textInside inside (.object r) = s := by
  have hend : Formatting.Steps w ⟨path, [.segment (.value v)], ""⟩
      ⟨path, [], w.textInside path v⟩ := by
    simpa using Formatting.steps_value hheap hv path [] ""
  have hstart : Formatting.Inside path ⟨path, [.segment (.value v)], ""⟩ :=
    ⟨[], rfl, List.nodup_nil, nofun, rfl⟩
  refine ⟨hend.ends rfl, fun c hc => ⟨hend.of_end rfl hc, ?_⟩,
    World.textInside?_eq hheap hv [], fun r o ho inside => ⟨?_, ?_, ?_⟩⟩
  · obtain ⟨entered, hpath, hnodup, hnew, -⟩ := hc.inside hstart
    exact ⟨entered, hpath, hnodup, hnew⟩
  · refine (World.textInside_eq_marker_iff hheap ho (.map [])).trans (and_congr_right fun _ => ?_)
    unfold Host.Object.size?
    cases o.data <;> simp [Data.marker]
  · refine (World.textInside_eq_marker_iff hheap ho .plain).trans (and_congr_right fun _ => ?_)
    unfold Host.Object.size?
    cases o.data <;> simp [Data.marker]
  · intro s hr hs
    rw [World.textInside_object hheap rfl ho, hs, Option.elim_some, if_neg hr]

/-- A world with a list that holds itself and twice a map, which refers to itself under a set that
holds the list. -/
def World.tangled : World :=
  { objects := ⟨#[
      .new Host.Library.list (.list #[.object ⟨0⟩, .object ⟨1⟩, .object ⟨1⟩]),
      .new Host.Library.map (.map [(.string "k", .string "v"), (.object ⟨2⟩, .object ⟨1⟩)]),
      .new Host.Library.set (.set [.object ⟨0⟩])]⟩ }

/-- The list is written once, the map each time it is met outside itself. -/
theorem formatting_ends_tangled :
    Formatting.Ends World.tangled ⟨[], [.segment (.value (.object ⟨0⟩))], ""⟩ ∧
      Formatting.Steps World.tangled ⟨[], [.segment (.value (.object ⟨0⟩))], ""⟩
        ⟨[], [], "[(this Collection), {k=v, [(this Collection)]=(this Map)}, " ++
          "{k=v, [(this Collection)]=(this Map)}]"⟩ := by
  have hheap : World.tangled.HoldsNoArrays := by
    intro r o ho v hv a
    have hmem := Array.mem_of_getElem? ho
    simp only [World.tangled, List.mem_toArray, List.mem_cons, List.not_mem_nil, or_false] at hmem
    rcases hmem with rfl | rfl | rfl <;>
      simp only [Host.Object.new, Data.values, Dictionary.keys, Dictionary.values, List.map_cons,
        List.map_nil, List.cons_append, List.nil_append, List.mem_cons, List.not_mem_nil, or_false]
        at hv <;>
      rcases hv with rfl | rfl | rfl | rfl <;> nofun
  obtain ⟨hends, hsteps, htext, -⟩ := formatting_ends hheap (v := .object ⟨0⟩) nofun []
  refine ⟨hends, ?_⟩
  have htangled : World.tangled.hostText (.object ⟨0⟩) =
      "[(this Collection), {k=v, [(this Collection)]=(this Map)}, " ++
        "{k=v, [(this Collection)]=(this Map)}]" := by
    decide +kernel
  rw [← htangled, World.hostText, htext]
  exact (hsteps _ .refl).1

end Membrane
