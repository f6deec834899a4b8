import Membrane.Proofs.Walk
import Membrane.Prototype.ListFunction

/-!
# The deeds of passes of fixed length

Loops that settle at the start what they go over: a backward walk and a fold go over the indices a
list had then, a visit over the members of a set. As for forward walks, each loop is told by a
relation with one rule for each way a step can go.

## Main definitions

* `BackwardDeeds`: a backward walk below an index.
* `FoldDeeds`: a fold over some indices with an accumulator.
* `VisitDeeds`: a visit of some values.

## Main results

* `backwardDeeds_backward`, `foldDeeds_foldIndices`, `visitDeeds_visit`: the loops follow the
  relations.
-/

namespace Membrane

open Host (Value)

variable {eng : Engine} {invoke : Invoke} {target : Value} {β : Type}

/-! ### Backward walks -/

/-- The deeds of one step of a backward walk at an index. -/
inductive PickDeeds (walk : Walk) (i : Nat) : List Deed → Outcome (Option β) → Prop
  | refused {f : Fault} {w : World} : PickDeeds walk i [] (.error (.fault f) w)
  | failed {element : Script.Value} {e : Halt} {w : World} :
      PickDeeds walk i [.call (walk.callOn element i) (.error e w)] (.error e w)
  | passed {element v : Script.Value} {w w' : World} :
      PickDeeds walk i [.call (walk.callOn element i) (.ok v w), .release v] (.ok none w')
  | picked {element v : Script.Value} {w : World} {r : Outcome (Option β)}
      (hr : ∀ w', r ≠ .error .exhausted w') (hsome : ∀ w', r ≠ .ok none w') :
      PickDeeds walk i [.call (walk.callOn element i) (.ok v w), .release v] r

/-- A step that asks the callback for a condition and, where it holds, finds something. -/
theorem pickDeeds_test {walk : Walk} {found : Run β} (hquiet : found.Quiet) (v : Value) (i : Nat)
    (w : World) :
    (do if ← walk.test eng invoke v i then return some (← found) else return none :
      Run (Option β)).Accounted invoke w (PickDeeds walk i) := by
  refine .bind (Walk.testDeeds_test v i w) ?_ ?_
  · rintro ds _ w₁ (_ | _ | @⟨element, v, w₀, _, _⟩)
    cases v.truthy with
    | true =>
      refine .bind_quiet hquiet (fun b w₂ _ _ => .pure ?_) fun f w₂ _ _ => ?_
      · exact .picked nofun nofun
      · exact .picked nofun nofun
    | false => exact .pure .passed
  · rintro ds e w₁ (_ | _ | _)
    · exact .refused
    · exact .failed

/-- The deeds of a backward walk below an index. -/
inductive BackwardDeeds (walk : Walk) (target : Value) :
    Nat → List Deed → Outcome (Option β) → Prop
  | finished {w : World} : BackwardDeeds walk target 0 [] (.ok none w)
  | lost {i : Nat} {e : Halt} {w : World} (hlist : w.list? target = none) :
      BackwardDeeds walk target (i + 1) [] (.error e w)
  | missing {i : Nat} {ds : List Deed} {r : Outcome (Option β)}
      (h : BackwardDeeds walk target i ds r) : BackwardDeeds walk target (i + 1) ds r
  | ended {i : Nat} {ds : List Deed} {r : Outcome (Option β)} (h : PickDeeds walk i ds r)
      (hr : ∀ w, r ≠ .ok none w) : BackwardDeeds walk target (i + 1) ds r
  | next {i : Nat} {ds ds' : List Deed} {w : World} {r : Outcome (Option β)}
      (h : PickDeeds walk i ds (.ok none w : Outcome (Option β)))
      (h' : BackwardDeeds walk target i ds' r) :
      BackwardDeeds walk target (i + 1) (ds ++ ds') r

theorem backwardDeeds_backward {walk : Walk} {step : Value → Nat → Run (Option β)}
    (hstep : ∀ v i w, (step v i).Accounted invoke w (PickDeeds walk i)) :
    ∀ i w, (backward target step i).Accounted invoke w (BackwardDeeds walk target i)
  | 0, w => .pure .finished
  | i + 1, w => by
    refine .bind_looks (looks_elementAt target i) (fun o _ => ?_)
      fun e h => .lost (elementAt_eq_error h)
    cases o with
    | none => exact (backwardDeeds_backward hstep i w).mono fun ds r h => .missing h
    | some v =>
      refine .bind (hstep v i w) (fun ds o w₂ h => ?_)
        fun ds e w₂ h => .ended (r := .error e w₂) ?_ ?_
      · cases o with
        | none => exact (backwardDeeds_backward hstep i w₂).mono fun ds' r h' => .next h h'
        | some b =>
          refine .pure ?_
          rw [List.append_nil]
          exact .ended h nofun
      · cases h with
        | refused => exact .refused
        | failed => exact .failed
        | picked _ _ => exact .picked (by assumption) nofun
      · exact nofun

/-! ### Folds -/

/-- The call a fold makes at an index, with an accumulator and an element as the script sees it. -/
def foldOn (callback this acc element : Script.Value) (i : Nat) : Call :=
  ⟨callback, .undefined, [acc, element, .ofIndex i, this]⟩

/-- The deeds of one step of a fold at an index; the accumulator is released apart from it. -/
inductive FoldStepDeeds (target : Value) (callback this acc : Script.Value) (i : Nat) :
    List Deed → Outcome (Option Script.Value) → Prop
  | missing {w : World} : FoldStepDeeds target callback this acc i [] (.ok none w)
  | lost {e : Halt} {w : World} (hlist : w.list? target = none) :
      FoldStepDeeds target callback this acc i [] (.error e w)
  | refused {f : Fault} {w : World} :
      FoldStepDeeds target callback this acc i [] (.error (.fault f) w)
  | failed {element : Script.Value} {e : Halt} {w : World} :
      FoldStepDeeds target callback this acc i
        [.call (foldOn callback this acc element i) (.error e w)] (.error e w)
  | called {element v : Script.Value} {w : World} :
      FoldStepDeeds target callback this acc i
        [.call (foldOn callback this acc element i) (.ok v w)] (.ok (some v) w)

theorem foldStepDeeds_foldStep {callback this : Script.Value} (acc : Script.Value) (i : Nat)
    (w : World) :
    (OnList.foldStep eng invoke target this callback i acc).Accounted invoke w
      (FoldStepDeeds target callback this acc i) := by
  refine .bind_looks (looks_elementAt target i) (fun o _ => ?_)
    fun e h => .lost (elementAt_eq_error h)
  cases o with
  | none => exact .pure .missing
  | some v =>
    refine .bind_quiet (eng.quiet_toScript v) (fun element w₂ _ _ => ?_) fun f w₂ _ _ => .refused
    exact .bind_call (fun v w₃ => .pure .called) fun e w₃ => .failed

/-- The deeds of a fold over some indices with an accumulator. -/
inductive FoldDeeds (target : Value) (callback this : Script.Value) :
    List Nat → Script.Value → List Deed → Outcome Script.Value → Prop
  | finished {acc : Script.Value} {w : World} : FoldDeeds target callback this [] acc [] (.ok acc w)
  | missing {i : Nat} {rest : List Nat} {acc : Script.Value} {ds : List Deed}
      {r : Outcome Script.Value} (h : FoldDeeds target callback this rest acc ds r) :
      FoldDeeds target callback this (i :: rest) acc ds r
  | lost {i : Nat} {rest : List Nat} {acc : Script.Value} {e : Halt} {w : World}
      (hlist : w.list? target = none) :
      FoldDeeds target callback this (i :: rest) acc [.release acc] (.error e w)
  | refused {i : Nat} {rest : List Nat} {acc : Script.Value} {f : Fault} {w : World} :
      FoldDeeds target callback this (i :: rest) acc [.release acc] (.error (.fault f) w)
  | failed {i : Nat} {rest : List Nat} {acc element : Script.Value} {e : Halt} {w w' : World} :
      FoldDeeds target callback this (i :: rest) acc
        [.call (foldOn callback this acc element i) (.error e w), .release acc] (.error e w')
  | next {i : Nat} {rest : List Nat} {acc element v : Script.Value} {w : World} {ds : List Deed}
      {r : Outcome Script.Value} (h : FoldDeeds target callback this rest v ds r) :
      FoldDeeds target callback this (i :: rest) acc
        (.call (foldOn callback this acc element i) (.ok v w) :: .release acc :: ds) r

theorem foldDeeds_foldIndices {callback this : Script.Value} :
    ∀ indices acc w, (OnList.foldIndices eng invoke target this callback indices acc).Accounted
      invoke w (FoldDeeds target callback this indices acc)
  | [], acc, w => .pure .finished
  | i :: rest, acc, w => by
    -- A step that halts is followed by the release of the accumulator.
    have hstep : ((OnList.foldStep eng invoke target this callback i acc).onHalt
        (Run.release acc)).Accounted invoke w fun ds r =>
          (∃ o w', r = .ok o w' ∧ FoldStepDeeds target callback this acc i ds r) ∨
            ∃ e ds' w₁ w', r = .error e w' ∧ ds = ds' ++ [.release acc] ∧ w'.objects = w₁.objects ∧
              FoldStepDeeds target callback this acc i ds' (.error e w₁) := by
      refine .onHalt (foldStepDeeds_foldStep acc i w) (fun ds o w₁ h => .inl ⟨o, w₁, rfl, h⟩)
        fun ds e w₁ h => ?_
      exact ⟨[.release acc], .single rfl, .inr ⟨e, ds, w₁, _, rfl, rfl, rfl, h⟩⟩
    refine .bind hstep ?_ ?_
    · rintro ds o w₁ (⟨_, _, ⟨⟩, h⟩ | ⟨_, _, _, _, ⟨⟩, _⟩)
      cases h with
      | missing => exact (foldDeeds_foldIndices rest acc w₁).mono fun ds r h => .missing h
      | called =>
        refine .bind_release fun w₂ _ => ?_
        exact (foldDeeds_foldIndices rest _ w₂).mono fun ds r h => .next h
    · rintro ds e w₁ (⟨_, _, ⟨⟩, _⟩ | ⟨_, ds', _, _, ⟨⟩, rfl, hw, h⟩)
      cases h with
      | lost hlist => exact .lost (World.list?_congr hw ▸ hlist)
      | refused => exact .refused
      | failed => exact .failed

/-! ### Visits of set members -/

/-- The deeds of a visit of some values. -/
inductive VisitDeeds (callback receiver this : Script.Value) :
    List Value → List Deed → Outcome Unit → Prop
  | finished {w : World} : VisitDeeds callback receiver this [] [] (.ok () w)
  | refused {v : Value} {rest : List Value} {f : Fault} {w : World} :
      VisitDeeds callback receiver this (v :: rest) [] (.error (.fault f) w)
  | failed {v : Value} {rest : List Value} {member : Script.Value} {e : Halt} {w : World} :
      VisitDeeds callback receiver this (v :: rest)
        [.call ⟨callback, receiver, [member, member, this]⟩ (.error e w)] (.error e w)
  | next {v : Value} {rest : List Value} {member result : Script.Value} {w : World}
      {ds : List Deed} {r : Outcome Unit}
      (h : VisitDeeds callback receiver this rest ds r) :
      VisitDeeds callback receiver this (v :: rest)
        (.call ⟨callback, receiver, [member, member, this]⟩ (.ok result w) ::
          .release result :: ds) r

theorem visitDeeds_visit {callback receiver this : Script.Value} :
    ∀ members w, (OnSet.visit eng invoke this callback receiver members).Accounted invoke w
      (VisitDeeds callback receiver this members)
  | [], w => .pure .finished
  | v :: rest, w => by
    refine .bind_quiet (eng.quiet_toScript v) (fun member w₁ _ _ => ?_) fun f w₁ _ _ => .refused
    refine .bind_call (fun result w₂ => ?_) fun e w₂ => .failed
    refine .bind_release fun w₃ _ => ?_
    exact (visitDeeds_visit rest w₃).mono fun ds r h => .next h

end Membrane
