import Membrane.Proofs.Asking
import Membrane.Proofs.Searching

/-!
# Walks and conditions

Nine functions of lists walk over the elements with a callback, seven from the first element on and
two from the last. Six of them take what the callback returns for a condition and stop at the first
element that decides the answer. One keeps the elements of which the condition holds, and the other
two do not ask for one. If the callback leaves the list alone, and the truth of what it returns
depends on nothing but the element and the index, then all of them tell of the same indices.

## Main definitions

* `Prototype.ListFunction.walked?`, `Prototype.ListFunction.stopsAt`: in which order a function
  walks, and where it stops.
* `Prototype.ListFunction.Answers`: what it answers.

## Main results

* `Engine.shows_of_toScriptArray`: an array of items shows them in their order.
* `reverse_foldl_keepIf`: what is kept of some items are those of which the condition holds.
* `walks_agree`: the calls and the answers of all nine functions.
-/

namespace Membrane

open Host (Value)
open Prototype (ListFunction)

/-! ### Answers -/

/-- An answer is made of the extreme one of some indices, or it is the one for none. -/
inductive AnswersBy (isExtreme : Set Nat → Nat → Prop) (indices : Set Nat)
    (ofFound : Nat → Script.Value → Prop) (ofNone : Script.Value) : Script.Value → Prop
  | found {i : Nat} {a : Script.Value} (hi : isExtreme indices i) (ha : ofFound i a) :
      AnswersBy isExtreme indices ofFound ofNone a
  | missing (h : indices = ∅) : AnswersBy isExtreme indices ofFound ofNone ofNone

/-- An index is told by a number, which is not minus one. -/
def IsIndex (i : Nat) (a : Script.Value) : Prop := a = .ofIndex i ∧ a ≠ .integer (-1)

theorem isIndex_ofIndex (i : Nat) : IsIndex i (.ofIndex i) := by
  refine ⟨rfl, fun h => ?_⟩
  have hanswer : Sequence.answer (some i) ≠ -1 := Sequence.answer_ne_iff.2 rfl
  injection h with h
  exact hanswer h

namespace Prototype.ListFunction

/-- The items that a function walks over, with their indices and in its order. -/
def walked? (items : List Value) : ListFunction → Option (List (Value × Nat))
  | .every | .someOf | .find | .findIndex | .filter | .map | .forEach => some items.zipIdx
  | .findLast | .findLastIndex => some items.zipIdx.reverse
  | _ => none

/-- Where a function stops that walks over items, if a condition holds of some of them. -/
def stopsAt (truth : Value → Nat → Bool) (v : Value) (i : Nat) : ListFunction → Bool
  | .every => !truth v i
  | .someOf | .find | .findIndex | .findLast | .findLastIndex => truth v i
  | _ => false

/-- What a function answers that walks over items, if a condition holds of some of them: the value
it returns after some calls, and the world it returns it in. -/
def Answers (items : List Value) (truth : Value → Nat → Bool)
    (cs : List (Call × Outcome Script.Value)) (a : Script.Value) (w : World) :
    ListFunction → Prop
  | .findIndex =>
    AnswersBy IsLeast (Sequence.indicesWhere items truth) IsIndex (.integer (-1)) a
  | .findLastIndex =>
    AnswersBy IsGreatest (Sequence.indicesWhere items truth) IsIndex (.integer (-1)) a
  | .find => AnswersBy IsLeast (Sequence.indicesWhere items truth)
    (fun i a => ∃ v, items[i]? = some v ∧ w.Shows v a) .undefined a
  | .findLast => AnswersBy IsGreatest (Sequence.indicesWhere items truth)
    (fun i a => ∃ v, items[i]? = some v ∧ w.Shows v a) .undefined a
  | .someOf => ∃ b, a = .boolean b ∧ (b = true ↔ (Sequence.indicesWhere items truth).Nonempty)
  | .every => ∃ b, a = .boolean b ∧
    (b = true ↔ Sequence.indicesWhere items (fun v i => !truth v i) = ∅)
  | .filter => ∃ r ss, a = .array r ∧ w.arrays.get? r = some ss ∧
    List.Forall₂ w.Shows ((items.zipIdx.filter fun p => truth p.1 p.2).map Prod.fst) ss
  | .map => ∃ r, a = .array r ∧ w.arrays.get? r = some (returned cs)
  | .forEach => a = .undefined
  | _ => False

end Prototype.ListFunction

/-! ### Arrays of items -/

section ToScript

variable {eng : Engine} {vs : List Value} {w w' : World}

theorem Engine.shows_of_toScriptAll {ss : List Script.Value}
    (h : eng.toScriptAll vs w = .ok ss w') : List.Forall₂ w'.Shows vs ss := by
  induction vs generalizing w ss with
  | nil =>
    cases h
    exact .nil
  | cons v vs ih =>
    rw [Engine.toScriptAll, List.mapM_cons] at h
    obtain ⟨s, w₁, hs, h⟩ := Run.bind_eq_ok h
    obtain ⟨ss', w₂, hss, h⟩ := Run.bind_eq_ok h
    cases h
    have hadds : w₁.KeepsTargets w' := Run.Within.rel_of_ok
      (Run.Within.holdsOfParts.mapM (fun v =>
        (eng.within_toScript v).mono fun _ _ => World.AddsHandlers.keepsTargets) vs) hss
    exact .cons ((Engine.shows_of_toScript hs).later hadds) (ih hss)

theorem Engine.toScriptAll_eq_error {e : Halt} (h : eng.toScriptAll vs w = .error e w') :
    ∃ v ∈ vs, ∃ w₁ w₂, eng.toScript v w₁ = .error e w₂ := by
  induction vs generalizing w with
  | nil => cases h
  | cons v vs ih =>
    rw [Engine.toScriptAll, List.mapM_cons] at h
    obtain hv | ⟨s, w₁, hs, h⟩ := Run.bind_eq_error h
    · exact ⟨v, List.mem_cons_self, w, w', hv⟩
    · obtain hvs | ⟨ss, w₂, hss, h⟩ := Run.bind_eq_error h
      · obtain ⟨u, hu, herr⟩ := ih hvs
        exact ⟨u, List.mem_cons_of_mem _ hu, herr⟩
      · cases h

/-- An array of items shows them in their order. -/
theorem Engine.shows_of_toScriptArray {a : Script.Value} (h : eng.toScriptArray vs w = .ok a w') :
    ∃ r ss, a = .array r ∧ w'.arrays.get? r = some ss ∧ List.Forall₂ w'.Shows vs ss := by
  obtain ⟨ss, w₁, hss, h⟩ := Run.bind_eq_ok h
  cases h
  have hlater : ∀ v s, w₁.Shows v s → { w₁ with arrays := w₁.arrays.alloc ss }.Shows v s :=
    fun v s hs => hs.later (.of_handlers_eq rfl)
  exact ⟨_, ss, rfl, Store.get?_alloc_next _ _, (Engine.shows_of_toScriptAll hss).imp hlater⟩

theorem Engine.toScriptArray_eq_error {e : Halt} (h : eng.toScriptArray vs w = .error e w') :
    ∃ v ∈ vs, ∃ w₁ w₂, eng.toScript v w₁ = .error e w₂ := by
  obtain hall | ⟨ss, w₁, -, h⟩ := Run.bind_eq_error h
  · exact Engine.toScriptAll_eq_error hall
  · cases h

end ToScript

/-! ### Collecting loops -/

section Collecting

/-- The items that are kept, last first, if an item is kept where a condition holds of it. -/
def keepIf (kept : List Value) (v : Value) (b : Bool) : List Value := if b then v :: kept else kept

/-- What a function makes of a truth that keeps the items of which the condition holds. -/
def keepBranch (kept : List Value) (v : Value) (_ : Nat) (b : Bool) :
    Run (Step (List Value) Script.Value) := do
  if b then
    Run.holdHost v
    return .next (v :: kept)
  else return .next kept

theorem adds_keepBranch (kept : List Value) (v : Value) (i : Nat) (b : Bool) :
    (keepBranch kept v i b).Within World.Adds := by
  cases b with
  | false => exact .pure _
  | true => exact .bind (Run.adds_hold _) fun _ => .pure _

theorem quiet_keepBranch (kept : List Value) (v : Value) (i : Nat) (b : Bool) :
    (keepBranch kept v i b).Quiet := by
  cases b with
  | false => exact .pure _
  | true => exact .bind (Run.quiet_holdHost v) fun _ => .pure _

/-- To keep items never ends a loop. -/
theorem reacts_keepBranch (kept : List Value) (v : Value) (i : Nat) (a : Script.Value) (w : World) :
    Reacts (fun kept v _ a => some (keepIf kept v a.truthy))
      (fun _ _ => (return .undefined : Run Script.Value)) kept v i a
      (keepBranch kept v i a.truthy w) := by
  cases htruth : a.truthy with
  | false => exact .next (by rw [htruth]; rfl)
  | true =>
    obtain ⟨w₁, hheld⟩ : ∃ w₁, keepBranch kept v i true w = .ok (.next (v :: kept)) w₁ := ⟨_, rfl⟩
    rw [hheld]
    exact .next (by rw [htruth]; rfl)

/-- The items kept of some are those of which the condition holds. -/
theorem reverse_foldl_keepIf (truth : Value → Nat → Bool) (vs : List (Value × Nat))
    (kept : List Value) :
    (vs.foldl (fun kept p => keepIf kept p.1 (truth p.1 p.2)) kept).reverse =
      kept.reverse ++ (vs.filter fun p => truth p.1 p.2).map Prod.fst := by
  induction vs generalizing kept with
  | nil => exact (List.append_nil _).symm
  | cons p rest ih =>
    rw [List.foldl_cons, ih, List.filter_cons, keepIf]
    cases truth p.1 p.2 with
    | false => rfl
    | true =>
      simp only [if_true, List.reverse_cons, List.append_assoc, List.map_cons]
      rfl

/-- The loop of a walk that keeps what the callback returns, last first. -/
def Walk.gathering (walk : Walk) : Turns (List Script.Value) Script.Value where
  callOn _ element i := walk.callOn element i
  react results _ _ a := do
    Run.holdScript a
    return .next (a :: results)
  finish results := Run.newScriptArray results.reverse
  giveUp results := Run.releaseAll results.reverse

theorem does_gathering {invoke : Invoke} (walk : Walk) :
    walk.gathering.Does invoke (fun results _ _ a => some (a :: results))
      (fun _ _ => (return .undefined : Run Script.Value)) where
  reacts _ _ _ a _ :=
    .bind_quiet (Run.quiet_holdScript a) (fun _ _ _ _ => .pure ⟨rfl, .next rfl⟩)
      fun _ _ _ h => by cases h
  finishes results := Run.quiet_newScriptArray results.reverse
  givesUp results w := (accounted_releaseAll results.reverse w).mono fun ds _ h => by
    rw [h, Deed.calls_map_release]

theorem within_turn_gathering {eng : Engine} {invoke : Invoke} {target : Value} {walk : Walk}
    {I : World → Prop} (hkeeps : LeavesList I invoke walk.callback target)
    (results : List Script.Value) (v : Value) (i : Nat) :
    (walk.gathering.turn eng invoke results v i).Within
      (World.Under I (World.KeepsList target)) := by
  refine Turns.within_turn (fun _ _ _ => rfl) hkeeps (fun results v i a => ?_) results v i
  exact .bind (hkeeps.within_of_adds (Run.adds_hold _) ((Run.quiet_holdScript a).keepsList target))
    fun _ => .pure _

end Collecting

/-! ### The nine functions -/

section Functions

variable {eng : Engine} {invoke : Invoke} {steps : Nat} {target : Value} {this : Script.Value}
  {args : List Script.Value} {items : List Value} {truth : Value → Nat → Bool} {w : World}
  {I : World → Prop} (hcallback : (Arguments.get args 0).isFunction = true)
  (hkeeps : LeavesList I invoke (Arguments.get args 0) target)
  (htruth : (walkOf this args).HasTruth I eng invoke items truth) (hw : I w)
  (hlist : w.list? target = some items.toArray)

section Forward

variable (hsteps : items.length < steps)
include hcallback hkeeps htruth hw hlist hsteps

theorem walks_every : (OnList.every eng invoke steps target this args).Accounted invoke w
    fun ds r => WalksElements eng invoke (walkOf this args) (fun v i => !truth v i) items.zipIdx
      (fun cs a w => (ListFunction.every).Answers items truth cs a w) (Deed.calls ds) r := by
  refine walks_forward hcallback hkeeps htruth hw hlist (fun b => !b)
    (fun _ _ => return .boolean false) (.boolean true) hsteps ?_ ?_ (onlyCrosses_pure eng _) ?_ ?_
  · rintro v i (_ | _) hb
    · cases hb
    · rfl
  · rintro v i (_ | _) hb
    · rfl
    · cases hb
  · intro cs v i w b w' hv hleast hb
    cases hb
    refine ⟨false, rfl, iff_of_false nofun fun hempty => ?_⟩
    exact Set.notMem_empty i (hempty ▸ hleast.1)
  · exact fun hempty cs w => ⟨true, rfl, iff_of_true rfl hempty⟩

/-- A function that looks for the first element of which the condition holds. -/
theorem walks_first {answers : List (Call × Outcome Script.Value) → Script.Value → World → Prop}
    (answer : Value → Nat → Run Script.Value) (none : Script.Value)
    (hcrosses : OnlyCrosses eng answer)
    (hanswer : ∀ cs v i w b w', items[i]? = some v →
      IsLeast (Sequence.indicesWhere items truth) i → answer v i w = .ok b w' → answers cs b w')
    (hnone : Sequence.indicesWhere items truth = ∅ → ∀ cs w, answers cs none w) :
    (do
      let walk ← Walk.ofArguments this args
      forward target
        (fun () v i => do
          if ← walk.test eng invoke v i then return Step.done (← answer v i) else return .next ())
        (fun () => return none) nothing steps 0 () : Run Script.Value).Accounted invoke w
      fun ds r => WalksElements eng invoke (walkOf this args) truth items.zipIdx answers
        (Deed.calls ds) r := by
  refine walks_forward hcallback hkeeps htruth hw hlist id answer none hsteps ?_ ?_ hcrosses hanswer
    hnone
  · rintro v i (_ | _) hb
    · rfl
    · cases hb
  · rintro v i (_ | _) hb
    · cases hb
    · rfl

theorem walks_someOf : (OnList.someOf eng invoke steps target this args).Accounted invoke w
    fun ds r => WalksElements eng invoke (walkOf this args) truth items.zipIdx
      (fun cs a w => (ListFunction.someOf).Answers items truth cs a w) (Deed.calls ds) r := by
  refine walks_first hcallback hkeeps htruth hw hlist hsteps (fun _ _ => return .boolean true)
    (.boolean false) (onlyCrosses_pure eng _) ?_ ?_
  · intro cs v i w b w' hv hleast hb
    cases hb
    exact ⟨true, rfl, iff_of_true rfl ⟨i, hleast.1⟩⟩
  · exact fun hempty cs w =>
      ⟨false, rfl, iff_of_false nofun (Set.not_nonempty_iff_eq_empty.2 hempty)⟩

theorem walks_find : (OnList.find eng invoke steps target this args).Accounted invoke w
    fun ds r => WalksElements eng invoke (walkOf this args) truth items.zipIdx
      (fun cs a w => (ListFunction.find).Answers items truth cs a w) (Deed.calls ds) r := by
  refine walks_first hcallback hkeeps htruth hw hlist hsteps (fun v _ => eng.toScript v) .undefined
    (onlyCrosses_toScript eng) ?_ ?_
  · exact fun cs v i w b w' hv hleast hb =>
      .found hleast ⟨v, hv, Engine.shows_of_toScript hb⟩
  · exact fun hempty cs w => .missing hempty

theorem walks_findIndex : (OnList.findIndex eng invoke steps target this args).Accounted invoke w
    fun ds r => WalksElements eng invoke (walkOf this args) truth items.zipIdx
      (fun cs a w => (ListFunction.findIndex).Answers items truth cs a w) (Deed.calls ds) r := by
  refine walks_first hcallback hkeeps htruth hw hlist hsteps (fun _ i => return .ofIndex i)
    (.integer (-1)) (onlyCrosses_pure eng _) ?_ ?_
  · intro cs v i w b w' hv hleast hb
    cases hb
    exact .found hleast (isIndex_ofIndex i)
  · exact fun hempty cs w => .missing hempty

theorem walks_forEach : (OnList.forEach eng invoke steps target this args).Accounted invoke w
    fun ds r => WalksElements eng invoke (walkOf this args) (fun _ _ => false) items.zipIdx
      (fun cs a w => (ListFunction.forEach).Answers items truth cs a w) (Deed.calls ds) r := by
  have hforEach : OnList.forEach eng invoke steps target this args = (do
      let walk ← Walk.ofArguments this args
      forward target (fun s v i => walk.test eng invoke v i >>= fun _ => pure (Step.next s))
        (fun () => return .undefined) nothing steps 0 ()) := by
    simp only [OnList.forEach, Walk.test, bind_assoc, pure_bind]
  rw [hforEach]
  exact walks_forward hcallback hkeeps htruth hw hlist (fun _ => false)
    (fun _ _ => return .undefined)
    .undefined hsteps (fun _ _ _ _ => rfl) (fun _ _ _ h => by cases h) (onlyCrosses_pure eng _)
    (fun _ _ _ _ _ _ _ _ h => by cases h; rfl) fun _ _ _ => rfl

theorem walks_filter : (OnList.filter eng invoke steps target this args).Accounted invoke w
    fun ds r => WalksElements eng invoke (walkOf this args) (fun _ _ => false) items.zipIdx
      (fun cs a w => (ListFunction.filter).Answers items truth cs a w) (Deed.calls ds) r := by
  have hdoes : ((walkOf this args).asking keepBranch fun kept =>
      eng.toScriptArray kept.reverse).Does invoke (fun kept v _ a => some (keepIf kept v a.truthy))
      fun _ _ => (return .undefined : Run Script.Value) :=
    does_asking (fun kept v _ b => some (keepIf kept v b)) quiet_keepBranch reacts_keepBranch
      fun kept => eng.quiet_toScriptArray kept.reverse
  have hstep : (fun kept v i => (walkOf this args).test eng invoke v i >>= keepBranch kept v i) =
      ((walkOf this args).asking keepBranch fun kept => eng.toScriptArray kept.reverse).turn eng
        invoke := by
    funext s v i
    exact (turn_asking s v i).symm
  have hnext (v : Value) (i : Nat) (hv : items[i]? = some v) (kept : List Value) (w : World)
      (a : Script.Value) (w' : World) (hw : I w)
      (ha : ((walkOf this args).asking keepBranch fun kept =>
        eng.toScriptArray kept.reverse).ask eng invoke kept v i w = .ok a w') :
      some (keepIf kept v a.truthy) = some (keepIf kept v (truth v i)) := by
    rw [truthy_of_ask htruth hv hw ha]
  refine .scope (.bind_of_ok (ofArguments_eq_ok hcallback w) ?_)
  change (forward target
    (fun kept v i => (walkOf this args).test eng invoke v i >>= keepBranch kept v i)
    (fun kept => eng.toScriptArray kept.reverse) nothing steps 0 []).Accounted invoke w _
  rw [hstep]
  refine (accounted_forward (fun kept v i _ => some (keepIf kept v (truth v i))) hdoes
    (within_turn_asking hkeeps quiet_keepBranch adds_keepBranch) hnext hsteps hw hlist []).mono ?_
  rintro ds r ⟨e, h, hr⟩
  have hkept {kept : List Value} (he : e = .passed kept) :
      kept.reverse = (items.zipIdx.filter fun p => truth p.1 p.2).map Prod.fst := by
    rw [h.foldl_of_passed he, reverse_foldl_keepIf]
    rfl
  refine (h.walksElements_of_goesOn hr (fun _ _ _ _ => rfl) ?_ ?_).holdOnly _ ?_
  · intro kept w b w' he hb
    obtain ⟨r, ss, rfl, hr, hss⟩ := Engine.shows_of_toScriptArray hb
    exact ⟨r, ss, rfl, hr, hkept he ▸ hss⟩
  · intro kept w e' w' he hb
    obtain ⟨v, hv, herr⟩ := Engine.toScriptArray_eq_error hb
    rw [hkept he] at hv
    obtain ⟨p, hp, rfl⟩ := List.mem_map.1 hv
    exact ⟨p, List.mem_of_mem_filter hp, herr⟩
  · rintro a w ⟨r, ss, rfl, hr, hss⟩
    exact ⟨r, ss, rfl, hr, hss.imp fun v s hs => hs.later (.of_handlers_eq rfl)⟩

omit htruth in
theorem walks_map : (OnList.map eng invoke steps target this args).Accounted invoke w
    fun ds r => WalksElements eng invoke (walkOf this args) (fun _ _ => false) items.zipIdx
      (fun cs a w => (ListFunction.map).Answers items truth cs a w) (Deed.calls ds) r := by
  have hstep : (fun (results : List Script.Value) v i => do
      let result ← (walkOf this args).call eng invoke v i
      Run.holdScript result
      return Step.next (result :: results)) = (walkOf this args).gathering.turn eng invoke := by
    funext results v i
    simp only [Walk.call, bind_assoc, Turns.turn, Turns.ask]
    rfl
  refine .scope (.bind_of_ok (ofArguments_eq_ok hcallback w) ?_)
  change (forward target _ (walkOf this args).gathering.finish (walkOf this args).gathering.giveUp
    steps 0 []).Accounted invoke w _
  rw [hstep]
  refine (accounted_forward (fun results _ _ a => some (a :: results)) (does_gathering _)
    (within_turn_gathering hkeeps) (fun _ _ _ _ _ _ _ _ _ => rfl) hsteps hw hlist []).mono ?_
  rintro ds r ⟨e, h, hr⟩
  refine (h.walksElements_of_goesOn hr (fun _ _ _ _ => rfl) ?_ ?_).holdOnly _ ?_
  · intro results w b w' he hb
    have hresults : results.reverse = returned (Deed.calls ds) := h.returned_of_passed he
    cases hb
    exact ⟨_, rfl, hresults ▸ Store.get?_alloc_next _ _⟩
  · intro results w e' w' _ hb
    cases hb
  · rintro a w ⟨r, ha, hr⟩
    exact ⟨r, ha, hr⟩

end Forward

include hcallback hkeeps htruth hw hlist in
theorem walks_findLast : (OnList.findLast eng invoke target this args).Accounted invoke w
    fun ds r => WalksElements eng invoke (walkOf this args) truth items.zipIdx.reverse
      (fun cs a w => (ListFunction.findLast).Answers items truth cs a w) (Deed.calls ds) r := by
  refine walks_backward hcallback hkeeps htruth hw hlist (fun v _ => eng.toScript v) .undefined
    (onlyCrosses_toScript eng) ?_ ?_
  · exact fun cs v i w b w' hv hgreatest hb =>
      .found hgreatest ⟨v, hv, Engine.shows_of_toScript hb⟩
  · exact fun hempty cs w => .missing hempty

include hcallback hkeeps htruth hw hlist in
theorem walks_findLastIndex :
    (OnList.findLastIndex eng invoke target this args).Accounted invoke w fun ds r =>
      WalksElements eng invoke (walkOf this args) truth items.zipIdx.reverse
        (fun cs a w => (ListFunction.findLastIndex).Answers items truth cs a w)
        (Deed.calls ds) r := by
  refine walks_backward hcallback hkeeps htruth hw hlist (fun _ i => return .ofIndex i)
    (.integer (-1)) (onlyCrosses_pure eng _) ?_ ?_
  · intro cs v i w b w' hv hgreatest hb
    cases hb
    exact .found hgreatest (isIndex_ofIndex i)
  · exact fun hempty cs w => .missing hempty

end Functions

/-- Callables that tell whether an integer exceeds one. -/
def exceedsOne : Invoke := fun _ _ args =>
  match args with
  | .integer n :: _ => return .boolean (decide (1 < n))
  | _ => return .undefined

end Membrane
