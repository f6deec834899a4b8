import Mathlib.Order.Bounds.Basic
import Membrane.Proofs.Turns

/-!
# Where walks stop

A walk over the elements of a list that stops where a condition holds makes its calls up to the
first element, in its order, of which it does. If the order is that of the indices, this element has
the least index of those of which the condition holds, and in the reverse order it has the greatest.

## Main definitions

* `Sequence.indicesWhere`: the indices of the items of which a condition holds.
* `stopsWhere`, `turnsUntil`: a loop that stops where a condition holds, and how many calls it
  makes.
* `WalksElements`: the calls and the outcome of a walk.

## Main results

* `Sequence.isLeast_of_find?`, `Sequence.isGreatest_of_find?`: the first element found in an order
  has the extreme index.
* `TakesTurns.number`: a walk makes its calls up to the element it stops at.
* `TakesTurns.walksElements`: a loop that takes turns walks if its answers are as they should be.
-/

namespace Membrane

open Host (Value)

/-! ### Indices of a condition -/

namespace Sequence

/-- The indices of the items of which a condition on an item and its index holds. -/
def indicesWhere (items : List Value) (truth : Value → Nat → Bool) : Set Nat :=
  {i | items[i]?.any (truth · i) = true}

variable {items : List Value} {truth : Value → Nat → Bool} {v : Value} {i : Nat}

theorem mem_indicesWhere_iff :
    i ∈ indicesWhere items truth ↔ ∃ v, items[i]? = some v ∧ truth v i = true := by
  rw [indicesWhere, Set.mem_ofPred_eq]
  cases items[i]? with
  | none => simp
  | some v => simp

/-- If items with their indices are gone through in some order, the first of which a condition holds
comes before all others of which it does. -/
theorem before_of_find? {R : Nat → Nat → Prop} {vs : List (Value × Nat)}
    (hvs : vs.Pairwise fun p q => R p.2 q.2) (hmem : ∀ p, p ∈ vs ↔ items[p.2]? = some p.1)
    (h : vs.find? (fun p => truth p.1 p.2) = some (v, i)) :
    items[i]? = some v ∧ i ∈ indicesWhere items truth ∧
      ∀ j ∈ indicesWhere items truth, j = i ∨ R i j := by
  obtain ⟨htruth, before, after, rfl, hbefore⟩ := List.find?_eq_some_iff_append.1 h
  have hv : items[i]? = some v := (hmem (v, i)).1 (by simp)
  refine ⟨hv, mem_indicesWhere_iff.2 ⟨v, hv, htruth⟩, fun j hj => ?_⟩
  obtain ⟨u, hu, hutruth⟩ := mem_indicesWhere_iff.1 hj
  obtain hin | hin := List.mem_append.1 ((hmem (u, j)).2 hu)
  · have hfalse := hbefore (u, j) hin
    rw [hutruth] at hfalse
    cases hfalse
  · obtain heq | hafter := List.mem_cons.1 hin
    · cases heq
      exact .inl rfl
    · have hpairwise := (List.pairwise_append.1 hvs).2.1
      exact .inr ((List.pairwise_cons.1 hpairwise).1 (u, j) hafter)

theorem eq_empty_of_find? (truth : Value → Nat → Bool) {vs : List (Value × Nat)}
    (hmem : ∀ p, p ∈ vs ↔ items[p.2]? = some p.1)
    (h : vs.find? (fun p => truth p.1 p.2) = none) : indicesWhere items truth = ∅ := by
  refine Set.eq_empty_iff_forall_notMem.2 fun i hi => ?_
  obtain ⟨v, hv, htruth⟩ := mem_indicesWhere_iff.1 hi
  exact List.find?_eq_none.1 h (v, i) ((hmem (v, i)).2 hv) htruth

theorem pairwise_zipIdx (items : List Value) :
    items.zipIdx.Pairwise fun p q => p.2 < q.2 := by
  rw [← List.pairwise_map (f := Prod.snd), List.zipIdx_map_snd]
  exact List.pairwise_lt_range'

theorem isLeast_of_find? (truth : Value → Nat → Bool)
    (h : items.zipIdx.find? (fun p => truth p.1 p.2) = some (v, i)) :
    items[i]? = some v ∧ IsLeast (indicesWhere items truth) i := by
  obtain ⟨hv, hi, hbefore⟩ := before_of_find? (pairwise_zipIdx items)
    (fun p => List.mem_zipIdx_iff_getElem?) h
  exact ⟨hv, hi, fun j hj => (hbefore j hj).elim (fun heq => heq.ge) Nat.le_of_lt⟩

theorem isGreatest_of_find? (truth : Value → Nat → Bool)
    (h : items.zipIdx.reverse.find? (fun p => truth p.1 p.2) = some (v, i)) :
    items[i]? = some v ∧ IsGreatest (indicesWhere items truth) i := by
  obtain ⟨hv, hi, hbefore⟩ := before_of_find? (R := fun i j => j < i)
    (List.pairwise_reverse.2 (pairwise_zipIdx items))
    (fun p => List.mem_reverse.trans List.mem_zipIdx_iff_getElem?) h
  exact ⟨hv, hi, fun j hj => (hbefore j hj).elim (fun heq => heq.le) Nat.le_of_lt⟩

end Sequence

/-! ### Where a walk stops -/

/-- A loop without a state that stops where a condition on the element and its index holds. -/
def stopsWhere (stops : Value → Nat → Bool) : Unit → Value → Nat → Script.Value → Option Unit :=
  fun _ v i _ => if stops v i then none else some ()

/-- The number of calls of a walk that stops where a condition holds, up to and including the one at
which it does. -/
def turnsUntil (stops : Value → Nat → Bool) (vs : List (Value × Nat)) : Nat :=
  min (vs.findIdx (fun p => stops p.1 p.2) + 1) vs.length

section TurnsUntil

variable {stops : Value → Nat → Bool} {v : Value} {i : Nat} {rest : List (Value × Nat)}

theorem turnsUntil_cons_of_stops (h : stops v i = true) :
    turnsUntil stops ((v, i) :: rest) = 1 := by
  simp [turnsUntil, List.findIdx_cons, h]

theorem turnsUntil_cons_of_goesOn (h : stops v i = false) :
    turnsUntil stops ((v, i) :: rest) = turnsUntil stops rest + 1 := by
  simp only [turnsUntil, List.findIdx_cons, h, cond_false, List.length_cons]
  omega

theorem turnsUntil_cons_pos (p : Value × Nat) (rest : List (Value × Nat)) :
    1 ≤ turnsUntil stops (p :: rest) := by
  simp only [turnsUntil, List.length_cons]
  omega

end TurnsUntil

/-- Where a walk goes on, the condition does not hold. -/
theorem stopsWhere_eq_some_iff {stops : Value → Nat → Bool} {u u' : Unit} {v : Value} {i : Nat}
    {a : Script.Value} : stopsWhere stops u v i a = some u' ↔ stops v i = false := by
  unfold stopsWhere
  cases stops v i <;> simp

theorem stopsWhere_eq_none_iff {stops : Value → Nat → Bool} {u : Unit} {v : Value} {i : Nat}
    {a : Script.Value} : stopsWhere stops u v i a = none ↔ stops v i = true := by
  unfold stopsWhere
  cases stops v i <;> simp

/-- How a loop ends, its state aside. -/
def Ending.forget {σ : Type} : Ending σ → Ending Unit
  | .passed _ => .passed ()
  | .stopped v i => .stopped v i
  | .halted e => .halted e

/-- The values that some calls have returned. -/
def returned (cs : List (Call × Outcome Script.Value)) : List Script.Value :=
  cs.filterMap fun c =>
    match c.2 with
    | .ok a _ => some a
    | .error _ _ => none

namespace TakesTurns

variable {σ : Type} {eng : Engine} {invoke : Invoke} {callOn : Script.Value → Nat → Call}
  {next : σ → Value → Nat → Script.Value → Option σ} {s s' : σ} {vs : List (Value × Nat)}
  {cs : List (Call × Outcome Script.Value)} {e : Ending σ}

section Unstated

variable {stops : Value → Nat → Bool} {u : Unit} {e : Ending Unit}
  (h : TakesTurns eng invoke (fun _ => callOn) (stopsWhere stops) u vs cs e)
include h

/-- No call is made beyond the element at which the walk stops. -/
theorem length_le : cs.length ≤ turnsUntil stops vs := by
  induction h with
  | passed => exact Nat.zero_le _
  | refused => exact Nat.zero_le _
  | failed => exact turnsUntil_cons_pos _ _
  | stopped => exact turnsUntil_cons_pos _ _
  | next _ _ hnext _ ih =>
    rw [turnsUntil_cons_of_goesOn (stopsWhere_eq_some_iff.1 hnext)]
    exact Nat.succ_le_succ ih

/-- Unless it halts, a walk makes all its calls up to the one at which it stops. -/
theorem number (he : ∀ e', e ≠ .halted e') : cs.length = turnsUntil stops vs := by
  induction h with
  | passed => rfl
  | refused => exact absurd rfl (he _)
  | failed => exact absurd rfl (he _)
  | stopped _ _ hnext => exact (turnsUntil_cons_of_stops (stopsWhere_eq_none_iff.1 hnext)).symm
  | next _ _ hnext _ ih =>
    rw [turnsUntil_cons_of_goesOn (stopsWhere_eq_some_iff.1 hnext), ← ih he]
    rfl

/-- The element at which a walk stops is the first one of which the condition holds. -/
theorem find?_of_stopped {v : Value} {i : Nat} (he : e = .stopped v i) :
    vs.find? (fun p => stops p.1 p.2) = some (v, i) := by
  induction h with
  | stopped _ _ hnext =>
    cases he
    rw [List.find?_cons, stopsWhere_eq_none_iff.1 hnext]
  | next _ _ hnext _ ih => rw [List.find?_cons, stopsWhere_eq_some_iff.1 hnext, ih he]
  | _ => cases he

/-- A walk passes all elements if the condition holds of none. -/
theorem find?_of_passed {u' : Unit} (he : e = .passed u') :
    vs.find? (fun p => stops p.1 p.2) = none := by
  induction h with
  | passed => rfl
  | next _ _ hnext _ ih => rw [List.find?_cons, stopsWhere_eq_some_iff.1 hnext, ih he]
  | _ => cases he

end Unstated

/-- A loop stops where a condition holds that tells of each element whether it has no next state. -/
theorem forget {stops : Value → Nat → Bool}
    (h : TakesTurns eng invoke (fun _ => callOn) next s vs cs e)
    (hstops : ∀ s v i a, (next s v i a).isNone = stops v i) :
    TakesTurns eng invoke (fun _ => callOn) (stopsWhere stops) () vs cs e.forget := by
  induction h with
  | passed => exact .passed ()
  | refused hv => exact .refused hv
  | failed hv hc => exact .failed hv hc
  | stopped hv hc hnext =>
    refine .stopped hv hc (stopsWhere_eq_none_iff.2 ?_)
    rw [← hstops, hnext]
    rfl
  | next hv hc hnext _ ih =>
    refine .next hv hc (stopsWhere_eq_some_iff.2 ?_) ih
    rw [← hstops, hnext]
    rfl

/-- A loop that passes all elements has come to the state that they make of the first one. -/
theorem foldl_of_passed {f : σ → Value → Nat → σ}
    (h : TakesTurns eng invoke (fun _ => callOn) (fun s v i _ => some (f s v i)) s vs cs e)
    (he : e = .passed s') :
    s' = vs.foldl (fun s p => f s p.1 p.2) s := by
  induction h with
  | passed =>
    cases he
    rfl
  | next _ _ hs _ ih =>
    cases hs
    exact ih he
  | _ => cases he

/-- A loop that keeps what its calls return has kept all of it when it has passed all elements. -/
theorem returned_of_passed {kept kept' : List Script.Value} {e : Ending (List Script.Value)}
    (h : TakesTurns eng invoke (fun _ => callOn) (fun kept _ _ a => some (a :: kept)) kept vs cs e)
    (he : e = .passed kept') : kept'.reverse = kept.reverse ++ returned cs := by
  induction h with
  | passed =>
    cases he
    exact (List.append_nil _).symm
  | next hv hc hs _ ih =>
    cases hs
    rw [ih he, List.reverse_cons, List.append_assoc]
    rfl
  | _ => cases he

end TakesTurns

/-! ### Walks -/

/-- A walk over some items makes its calls one after the other, as far as it has to, and answers. -/
structure WalksElements (eng : Engine) (invoke : Invoke) (walk : Walk)
    (stops : Value → Nat → Bool) (vs : List (Value × Nat))
    (answers : List (Call × Outcome Script.Value) → Script.Value → World → Prop)
    (cs : List (Call × Outcome Script.Value)) (r : Outcome Script.Value) : Prop where
  /-- The calls are made on the elements in their order, up to one that stops the walk. If a call
  fails or an element cannot be carried to the script, the walk fails with this error. -/
  walks : ∃ e, TakesTurns eng invoke (fun _ => walk.callOn) (stopsWhere stops) () vs cs e ∧
    ∀ e', e = .halted e' → ∃ w, r = .error e' w
  /-- The first call that fails is the last one, and the walk fails with its error. -/
  aborts : ∀ k c e w, cs[k]? = some (c, .error e w) → k + 1 = cs.length ∧ ∃ w₁, r = .error e w₁
  /-- No call is made beyond the element at which the walk stops. -/
  number_le : cs.length ≤ turnsUntil stops vs
  /-- If it succeeds, all calls up to this element are made. -/
  number : ∀ a w, r = .ok a w → cs.length = turnsUntil stops vs
  /-- If it succeeds, it answers so. -/
  answers : ∀ a w, r = .ok a w → answers cs a w
  /-- It fails with the error of its last call or with that of an element that cannot be carried to
  the script. -/
  fails : ∀ e w, r = .error e w → (∃ c w₁, cs.getLast? = some (c, .error e w₁)) ∨
    ∃ p ∈ vs, ∃ w₁ w₂, eng.toScript p.1 w₁ = .error e w₂

/-- What a walk answers with at an element that stops it does nothing, and fails only as it fails to
carry this element to the script. -/
structure OnlyCrosses (eng : Engine) (answer : Value → Nat → Run Script.Value) : Prop where
  /-- It has no deeds. -/
  quiet : ∀ v i, (answer v i).Quiet
  /-- It only adds to what is there. -/
  adds : ∀ v i, (answer v i).Within World.Adds
  /-- It fails with the error of the element. -/
  fails : ∀ v i w e w', answer v i w = .error e w' → ∃ w₁ w₂, eng.toScript v w₁ = .error e w₂

theorem onlyCrosses_pure (eng : Engine) (f : Value → Nat → Script.Value) :
    OnlyCrosses eng fun v i => return f v i where
  quiet _ _ := .pure _
  adds _ _ := .pure _
  fails _ _ _ _ _ h := by cases h

theorem onlyCrosses_toScript (eng : Engine) : OnlyCrosses eng fun v _ => eng.toScript v where
  quiet v _ := eng.quiet_toScript v
  adds v _ := (eng.within_toScript v).mono fun _ _ => World.AddsHandlers.adds
  fails _ _ w _ w' h := ⟨w, w', h⟩

section Assembling

variable {σ : Type} {eng : Engine} {invoke : Invoke} {walk : Walk}
  {next : σ → Value → Nat → Script.Value → Option σ} {stops : Value → Nat → Bool} {s : σ}
  {vs : List (Value × Nat)} {cs : List (Call × Outcome Script.Value)} {e : Ending σ}
  {answers : List (Call × Outcome Script.Value) → Script.Value → World → Prop}
  {finish : σ → Run Script.Value} {answer : Value → Nat → Run Script.Value}
  {r : Outcome Script.Value}

theorem Ending.forget_eq_halted {e' : Halt} (h : e.forget = .halted e') : e = .halted e' := by
  cases e <;> cases h
  rfl

/-- A loop that takes turns, and whose answers and results are as they should be, walks. -/
theorem TakesTurns.walksElements
    (h : TakesTurns eng invoke (fun _ => walk.callOn) next s vs cs e)
    (hr : e.Gives finish answer r) (hstops : ∀ s v i a, (next s v i a).isNone = stops v i)
    (hanswer : ∀ v i w b w', vs.find? (fun p => stops p.1 p.2) = some (v, i) →
      answer v i w = .ok b w' → answers cs b w')
    (hcrosses : OnlyCrosses eng answer)
    (hfinish : ∀ s' w b w', e = .passed s' → vs.find? (fun p => stops p.1 p.2) = none →
      finish s' w = .ok b w' → answers cs b w')
    (hfails : ∀ s' w e' w', e = .passed s' → finish s' w = .error e' w' →
      ∃ p ∈ vs, ∃ w₁ w₂, eng.toScript p.1 w₁ = .error e' w₂) :
    WalksElements eng invoke walk stops vs answers cs r := by
  -- Where the loop stops does not depend on its state, so the state can be forgotten.
  have hforget : TakesTurns eng invoke (fun _ => walk.callOn) (stopsWhere stops) () vs cs
      e.forget := h.forget hstops
  have hhalted : ∀ e', e.forget = .halted e' → ∃ w, r = .error e' w := fun e' he => by
    cases Ending.forget_eq_halted he
    cases hr with
    | halted e w => exact ⟨w, rfl⟩
  refine ⟨⟨e.forget, hforget, hhalted⟩, fun k c e' w hc => ?_, hforget.length_le,
    fun a w hok => ?_, fun a w hok => ?_, fun e' w herr => ?_⟩
  · exact (hforget.aborts hc).imp_right (hhalted e')
  · refine hforget.number fun e' he => ?_
    obtain ⟨w', herr⟩ := hhalted e' he
    cases hok.symm.trans herr
  · cases hok
    cases hr with
    | passed hb => exact hfinish _ _ _ _ rfl (hforget.find?_of_passed rfl) hb
    | answered hb => exact hanswer _ _ _ _ _ (hforget.find?_of_stopped rfl) hb
  · cases herr
    cases hr with
    | passed hb => exact .inr (hfails _ _ _ _ rfl hb)
    | @spoilt v i _ _ _ hb _ =>
      obtain ⟨w₁, w₂, hv⟩ := hcrosses.fails _ _ _ _ _ hb
      exact .inr ⟨(v, i), List.mem_of_find?_eq_some (hforget.find?_of_stopped rfl), w₁, w₂, hv⟩
    | halted e w => exact h.of_halted rfl

/-- A loop that goes on after every call, and whose results are as they should be, walks over all
elements. -/
theorem TakesTurns.walksElements_of_goesOn
    (h : TakesTurns eng invoke (fun _ => walk.callOn) next s vs cs e)
    (hr : e.Gives finish (fun _ _ => return .undefined) r)
    (hnext : ∀ s v i a, (next s v i a).isSome = true)
    (hfinish : ∀ s' w b w', e = .passed s' → finish s' w = .ok b w' → answers cs b w')
    (hfails : ∀ s' w e' w', e = .passed s' → finish s' w = .error e' w' →
      ∃ p ∈ vs, ∃ w₁ w₂, eng.toScript p.1 w₁ = .error e' w₂) :
    WalksElements eng invoke walk (fun _ _ => false) vs answers cs r := by
  refine h.walksElements hr (fun s v i a => ?_)
    (fun v i w b w' hfind => absurd (List.find?_some hfind) nofun) (onlyCrosses_pure eng _)
    (fun s' w b w' he _ hb => hfinish s' w b w' he hb) hfails
  rw [← Option.not_isSome, hnext s v i a, Bool.not_true]

end Assembling

/-- A walk goes the same way whatever is held at its end. -/
theorem WalksElements.holdOnly {eng : Engine} {invoke : Invoke} {walk : Walk}
    {stops : Value → Nat → Bool} {vs : List (Value × Nat)}
    {answers : List (Call × Outcome Script.Value) → Script.Value → World → Prop}
    {cs : List (Call × Outcome Script.Value)} {r : Outcome Script.Value}
    (h : WalksElements eng invoke walk stops vs answers cs r) (held : List Node)
    (hanswers : ∀ a w, answers cs a w → answers cs a { w with held := held }) :
    WalksElements eng invoke walk stops vs answers cs (Run.holdOnly held r) := by
  have herror {e : Halt} (he : ∃ w, r = .error e w) : ∃ w, Run.holdOnly held r = .error e w := by
    obtain ⟨w, rfl⟩ := he
    exact ⟨_, rfl⟩
  obtain ⟨e, hturns, he⟩ := h.walks
  have hwalks : ∃ e, TakesTurns eng invoke (fun _ => walk.callOn) (stopsWhere stops) () vs cs e ∧
      ∀ e', e = .halted e' → ∃ w, Run.holdOnly held r = .error e' w :=
    ⟨e, hturns, fun e' hhalted => herror (he e' hhalted)⟩
  have haborts := fun k c e w hc => (h.aborts k c e w hc).imp_right herror
  cases r with
  | ok a w =>
    refine ⟨hwalks, haborts, h.number_le, fun _ _ _ => h.number a w rfl, ?_, nofun⟩
    rintro _ _ ⟨⟩
    exact hanswers a w (h.answers a w rfl)
  | error e w =>
    refine ⟨hwalks, haborts, h.number_le, nofun, nofun, ?_⟩
    rintro _ _ ⟨⟩
    exact h.fails e w rfl

end Membrane
