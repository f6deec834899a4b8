import Membrane.Proofs.Items
import Membrane.Proofs.ListFunction
import Membrane.Proofs.Sort.Consultation

/-!
# What is released

A function that calls a callback owns what the calls return, and a fold owns its first accumulator
as well. Whatever the callback does and however the function ends, each of these values is released
once, or else handed over: the results of a map become the items of its array, and the last
accumulator of a fold is its result. The lists below are in order of time, so they also tell in
which order values are released.

## Main results

* `ForwardDeeds.released_eq_results`, `BackwardDeeds.released_eq_results`,
  `VisitDeeds.released_eq_results`, `ConsultDeeds.released_eq_results`: what is released is what was
  returned.
* `ForwardDeeds.handsOver`, `FoldDeeds.handsOver`: what is handed over instead.
* `released_once`: the accounts of all functions that take a callback.
-/

namespace Membrane

open Host (Value)
open Prototype (ListFunction)

variable {eng : Engine} {invoke : Invoke} {target : Value} {this : Script.Value}
  {args : List Script.Value} {w : World} {α β : Type}

/-! ### Loops -/

/-- A forward walk that keeps nothing releases the result of each call. -/
theorem ForwardDeeds.released_eq_results {walk : Walk} {scheme : Scheme} {n i : Nat}
    {kept : List Script.Value} {ds : List Deed} {r : Outcome Script.Value}
    (h : ForwardDeeds walk scheme target n i kept w ds r) (hkeeps : scheme.keeps = false)
    (hkept : kept = []) : Deed.released ds = Deed.results ds := by
  induction h with
  | cutOff => rfl
  | finished => rfl
  | lost => simp [hkept, Deed.released, Deed.results]
  | refused => simp [hkept, Deed.released, Deed.results]
  | failed => simp [hkept, Deed.released, Deed.results]
  | decided => simp [Scheme.settle, hkeeps, Deed.released, Deed.results]
  | next _ _ _ _ ih =>
    have := ih (by simp [Scheme.kept, hkeeps, hkept])
    simp [Scheme.settle, hkeeps, Deed.released, Deed.results, this]

/-- A forward walk that keeps the results hands all of them over if it succeeds, and releases all of
them if it fails. -/
theorem ForwardDeeds.handsOver {walk : Walk} {scheme : Scheme} {n i : Nat}
    {kept : List Script.Value} {ds : List Deed} {r : Outcome Script.Value}
    (h : ForwardDeeds walk scheme target n i kept w ds r) (hkeeps : scheme.keeps = true) :
    (∀ v w', r = .ok v w' → Deed.released ds = [] ∧
      ∃ a, v = .array a ∧ w'.arrays.get? a = some (kept ++ Deed.results ds)) ∧
    ∀ f w', r = .error (.fault f) w' → Deed.released ds = kept ++ Deed.results ds := by
  induction h with
  | cutOff => exact ⟨fun _ _ h => (by cases h), fun _ _ h => (by cases h)⟩
  | finished _ hr =>
    obtain ⟨a, w₁, rfl, ha⟩ := hr.handsOver hkeeps
    refine ⟨?_, fun _ _ h => by cases h⟩
    rintro _ _ ⟨⟩
    exact ⟨rfl, a, rfl, by simpa [Deed.results] using ha⟩
  | lost => exact ⟨fun _ _ h => (by cases h), fun _ _ _ => by simp⟩
  | refused => exact ⟨fun _ _ h => (by cases h), fun _ _ _ => by simp⟩
  | failed =>
    exact ⟨fun _ _ h => (by cases h), fun _ _ _ => by simp [Deed.released, Deed.results]⟩
  | decided _ hkeeps' => simp [hkeeps] at hkeeps'
  | next _ _ _ _ ih =>
    simpa [Scheme.settle, Scheme.kept, hkeeps, Deed.released, Deed.results] using ih

/-- A backward walk releases the result of each call. -/
theorem BackwardDeeds.released_eq_results {walk : Walk} {i : Nat} {ds : List Deed}
    {r : Outcome (Option β)} (h : BackwardDeeds walk target i ds r) :
    Deed.released ds = Deed.results ds := by
  have hpick {i : Nat} {ds : List Deed} {r : Outcome (Option β)} (h : PickDeeds walk i ds r) :
      Deed.released ds = Deed.results ds := by
    cases h <;> rfl
  induction h with
  | finished => rfl
  | lost => rfl
  | missing _ ih => exact ih
  | ended h => exact hpick h
  | next h _ ih => rw [Deed.released_append, Deed.results_append, hpick h, ih]

/-- A fold that succeeds hands over its last accumulator and releases those before it; one that
fails releases all of them. -/
theorem FoldDeeds.handsOver {callback this : Script.Value} {indices : List Nat}
    {seed : Script.Value} {ds : List Deed} {r : Outcome Script.Value}
    (h : FoldDeeds target callback this indices seed ds r) :
    (∀ v w', r = .ok v w' → seed :: Deed.results ds = Deed.released ds ++ [v]) ∧
    ∀ e w', r = .error e w' → seed :: Deed.results ds = Deed.released ds := by
  induction h with
  | finished =>
    refine ⟨?_, nofun⟩
    rintro _ _ ⟨⟩
    rfl
  | missing _ ih => exact ih
  | lost => exact ⟨nofun, fun _ _ _ => rfl⟩
  | refused => exact ⟨nofun, fun _ _ _ => rfl⟩
  | failed => exact ⟨nofun, fun _ _ _ => rfl⟩
  | next _ ih =>
    refine ⟨fun v w' hr => ?_, fun e w' hr => ?_⟩
    · exact congrArg _ (ih.1 v w' hr)
    · exact congrArg _ (ih.2 e w' hr)

/-- A visit releases the result of each call. -/
theorem VisitDeeds.released_eq_results {callback receiver this : Script.Value}
    {members : List Value} {ds : List Deed} {r : Outcome Unit}
    (h : VisitDeeds callback receiver this members ds r) :
    Deed.released ds = Deed.results ds := by
  induction h with
  | finished => rfl
  | refused => rfl
  | failed => rfl
  | next _ ih => exact congrArg _ ih

/-! ### Sorting -/

/-- A computation that releases what its calls return, wherever it is started. -/
def Balanced (invoke : Invoke) (x : Run α) : Prop :=
  ∀ w, x.Accounted invoke w fun ds _ => Deed.released ds = Deed.results ds

namespace Balanced

variable {x : Run α} {f : α → Run β}

theorem of_quiet (hx : x.Quiet) : Balanced invoke x := fun _ => .of_quiet hx rfl

theorem of_looks (hx : x.Looks) : Balanced invoke x := fun _ => .of_looks hx rfl

theorem bind (hx : Balanced invoke x) (hf : ∀ a, Balanced invoke (f a)) :
    Balanced invoke (x >>= f) := by
  intro w
  refine .bind (hx w) (fun ds a w₁ h => (hf a w₁).mono fun ds' r h' => ?_) fun ds e w₁ h => h
  rw [Deed.released_append, Deed.results_append, h, h']

end Balanced

section Sorting

/-- Whatever is compared, the results of a comparator are released. -/
theorem ConsultDeeds.released_eq_results {c : Script.Value} {ok : Bool} {ds : List Deed}
    (h : ConsultDeeds c ok ds) : Deed.released ds = Deed.results ds := by
  induction h with
  | ended => rfl
  | failed => rfl
  | answered _ ih => exact congrArg _ ih

theorem balanced_sorted (items : List Value) :
    Balanced invoke (OnList.sorted eng invoke items args[0]?) :=
  fun w => (consultDeeds_sorted items args w).mono fun _ _ h => h.released_eq_results

theorem balanced_putItems (items : List Value) : Balanced invoke (putItems target items) :=
  fun _ => ⟨[.write target (.list items.toArray)], .single rfl, rfl⟩

theorem balanced_sort : Balanced invoke (OnList.sort eng invoke target this args) := by
  refine .bind (.of_looks (looks_listValues target)) fun items => ?_
  split
  · exact .bind (balanced_sorted items) fun sorted =>
      .bind (balanced_putItems sorted) fun _ => .of_quiet (.pure this)
  · exact .of_quiet (.pure this)

theorem balanced_toSorted : Balanced invoke (OnList.toSorted eng invoke target args) :=
  .bind (.of_looks (looks_listValues target)) fun items =>
    .bind (balanced_sorted items) fun sorted => .of_quiet (eng.quiet_toScriptArray sorted)

end Sorting

/-! ### Functions -/

/-- The list functions that release the result of each call of a callback or comparator. -/
def Prototype.ListFunction.releasesResults : ListFunction → Bool
  | .forEach | .every | .someOf | .find | .findIndex | .findLast | .findLastIndex | .filter
  | .sort | .toSorted => true
  | _ => false

theorem WalkDeeds.released_eq_results {scheme : Scheme} {steps : Nat} {ds : List Deed}
    {r : Outcome Script.Value} (h : WalkDeeds scheme steps target this args w ds r)
    (hkeeps : scheme.keeps = false) : Deed.released ds = Deed.results ds := by
  cases h with
  | refused => rfl
  | walked h => exact h.released_eq_results hkeeps rfl

theorem LastDeeds.released_eq_results {ds : List Deed} {r : Outcome Script.Value}
    (h : LastDeeds target this args w ds r) : Deed.released ds = Deed.results ds := by
  cases h with
  | refused => rfl
  | lost => rfl
  | walked h => exact h.released_eq_results

theorem balanced_run {f : ListFunction} (steps : Nat) (h : f.releasesResults = true) :
    Balanced invoke (f.run eng invoke steps target this args) := by
  intro w
  cases f with
  | forEach => exact walkDeeds_forEach.mono fun ds r h => h.released_eq_results rfl
  | every => exact walkDeeds_every.mono fun ds r h => h.released_eq_results rfl
  | someOf => exact walkDeeds_someOf.mono fun ds r h => h.released_eq_results rfl
  | find => exact walkDeeds_find.mono fun ds r h => h.released_eq_results rfl
  | findIndex => exact walkDeeds_findIndex.mono fun ds r h => h.released_eq_results rfl
  | findLast => exact lastDeeds_findLast.mono fun ds r h => h.released_eq_results
  | findLastIndex => exact lastDeeds_findLastIndex.mono fun ds r h => h.released_eq_results
  | filter => exact walkDeeds_filter.mono fun ds r h => h.released_eq_results rfl
  | sort => exact balanced_sort w
  | toSorted => exact balanced_toSorted w
  | _ => cases h

theorem balanced_setForEach : Balanced invoke (OnSet.forEach eng invoke target this args) := by
  refine fun w => accounted_setForEach.mono fun ds r h => ?_
  obtain rfl | ⟨members, r', -, h⟩ := h
  · rfl
  · exact h.released_eq_results

/-- What a map releases: nothing if it succeeds, when the results are the items of its array, and
all results if it fails. -/
def MapReleases (ds : List Deed) (r : Outcome Script.Value) : Prop :=
  (∀ v w, r = .ok v w → Deed.released ds = [] ∧
    ∃ a, v = .array a ∧ w.arrays.get? a = some (Deed.results ds)) ∧
  ∀ f w, r = .error (.fault f) w → Deed.released ds = Deed.results ds

/-- What a fold releases that starts in a world: without a seed it has no deeds; with one, it
releases each accumulator but the last if it succeeds, when the last one is its result, and all of
them if it fails. -/
def FoldReleases (eng : Engine) (target : Value) (args : List Script.Value)
    (order : Nat → List Nat) (w : World) (ds : List Deed) (r : Outcome Script.Value) : Prop :=
  match seed? eng target args order w with
  | none => ds = []
  | some seed =>
    (∀ v w', r = .ok v w' → seed :: Deed.results ds = Deed.released ds ++ [v]) ∧
    ∀ e w', r = .error e w' → seed :: Deed.results ds = Deed.released ds

theorem mapReleases_map (steps : Nat) :
    (OnList.map eng invoke steps target this args).Accounted invoke w MapReleases := by
  refine walkDeeds_map.mono fun ds r h => ?_
  cases h with
  | refused => exact ⟨nofun, fun _ _ _ => rfl⟩
  | walked h => exact h.handsOver rfl

theorem foldReleases_fold (order : Nat → List Nat) :
    (OnList.fold eng invoke target this args order).Accounted invoke w
      (FoldReleases eng target args order w) := by
  refine (wholeFoldDeeds_fold order).mono fun ds r h => ?_
  unfold FoldReleases
  cases h with
  | unseeded hseed _ => rw [hseed]
  | folded hseed _ h =>
    rw [hseed]
    exact h.handsOver

/-- In every world, on every target, with every callback and however it ends, a function that takes
a callback releases once each value it owns or hands it over. The functions that only look at what a
call returns release the results; a map hands the results over or releases them; a fold owns its
seed as well and hands over the last accumulator or releases it. -/
theorem released_once (eng : Engine) (invoke : Invoke) (steps : Nat) (target : Value)
    (this : Script.Value) (args : List Script.Value) (w : World) :
    (∀ f : ListFunction, f.releasesResults = true →
      (f.run eng invoke steps target this args).Accounted invoke w fun ds _ =>
        Deed.released ds = Deed.results ds) ∧
    ((OnSet.forEach eng invoke target this args).Accounted invoke w fun ds _ =>
      Deed.released ds = Deed.results ds) ∧
    (OnList.map eng invoke steps target this args).Accounted invoke w MapReleases ∧
    (OnList.reduce eng invoke target this args).Accounted invoke w
      (FoldReleases eng target args List.range w) ∧
    (OnList.reduceRight eng invoke target this args).Accounted invoke w
      (FoldReleases eng target args (fun length => (List.range length).reverse) w) :=
  ⟨fun _ h => balanced_run steps h w, balanced_setForEach w, mapReleases_map steps,
    foldReleases_fold _, foldReleases_fold _⟩

/-- Callables that return true until the ledger holds two calls, and then raise a fault. -/
def failingAtSecond : Invoke := fun _ _ _ => do
  if (← get).ledger.calls.length < 2 then return .boolean true else Run.raise .released

/-- A callback that fails at the second of three elements: the one result there was is released. -/
theorem released_once_failing :
    ((ListFunction.forEach).run (Engine.direct Config.standard) failingAtSecond 4 onlyList
        .undefined [.function ⟨0⟩]).Accounted failingAtSecond (World.ofItems [.null, .null, .null])
      fun ds r => Deed.released ds = Deed.results ds ∧ ∃ w, r = .error (.fault .released) w ∧
        w.ledger.calls.length = 2 ∧ w.ledger.released = [.boolean true] := by
  obtain ⟨ds, hds, h⟩ := (released_once (Engine.direct Config.standard) failingAtSecond 4 onlyList
    .undefined [.function ⟨0⟩] (World.ofItems [.null, .null, .null])).1 .forEach rfl
  exact ⟨ds, hds, h, _, rfl, rfl, rfl⟩

end Membrane
