import Membrane.Proofs.Quiet

/-!
# The deeds of walks

The loops that hand elements to a callback, told by their deeds. Each relation below has one rule
for each way a step of its loop can go, and every run of the loop follows it, whatever the callback
does. What is to be said of a loop is then proved by induction on the relation, without the loop.

## Main definitions

* `Walk.callOn`: the call a walk makes at an index.
* `Scheme`: what a walk does with what the callback returns.
* `StepDeeds`, `ForwardDeeds`: a step of a forward walk, and the walk from an index on.
* `BackwardDeeds`: a backward walk below an index.

## Main results

* `forwardDeeds_forward`, `backwardDeeds_backward`: the loops follow the relations.
* `stepDeeds_test`: the step of a walk that asks the callback for a condition.
-/

namespace Membrane

open Host (Value)

variable {eng : Engine} {invoke : Invoke} {walk : Walk} {target : Value} {σ β : Type}

namespace Walk

/-- The call a walk makes at an index, with an element as the script sees it. -/
def callOn (walk : Walk) (element : Script.Value) (i : Nat) : Call :=
  ⟨walk.callback, walk.receiver, [element, .ofIndex i, walk.this]⟩

/-- The deeds of one call at an index: either the element cannot be carried to the script, or the
call is made. -/
inductive CallDeeds (walk : Walk) (i : Nat) : List Deed → Outcome Script.Value → Prop
  | refused {f : Fault} {w : World} : CallDeeds walk i [] (.error (.fault f) w)
  | called {element : Script.Value} {r : Outcome Script.Value} :
      CallDeeds walk i [.call (walk.callOn element i) r] r

theorem callDeeds_call (v : Value) (i : Nat) (w : World) :
    (walk.call eng invoke v i).Accounted invoke w (CallDeeds walk i) := by
  refine .bind_quiet (eng.quiet_toScript v) (fun element w₁ _ _ => ?_) fun f w₁ _ _ => .refused
  exact ⟨[.call (walk.callOn element i) _], .single ⟨rfl, rfl⟩, .called⟩

/-- The deeds of one call as a condition: what the callback returned is released. -/
inductive TestDeeds (walk : Walk) (i : Nat) : List Deed → Outcome Bool → Prop
  | refused {f : Fault} {w : World} : TestDeeds walk i [] (.error (.fault f) w)
  | failed {element : Script.Value} {e : Halt} {w : World} :
      TestDeeds walk i [.call (walk.callOn element i) (.error e w)] (.error e w)
  | tested {element v : Script.Value} {w w' : World} (hw : w'.objects = w.objects) :
      TestDeeds walk i [.call (walk.callOn element i) (.ok v w), .release v] (.ok v.truthy w')

theorem testDeeds_test (v : Value) (i : Nat) (w : World) :
    (walk.test eng invoke v i).Accounted invoke w (TestDeeds walk i) := by
  refine .bind (callDeeds_call v i w) ?_ ?_
  · rintro ds a w₁ ⟨⟩
    refine .bind_release fun w₂ hw => .pure ?_
    exact .tested hw
  · rintro ds e w₁ (_ | _)
    · exact .refused
    · exact .failed

end Walk

/-! ### Forward walks -/

/-- What a forward walk does with what the callback returns. -/
structure Scheme where
  /-- Whether the results are kept until the end of the walk, and otherwise released at once. -/
  keeps : Bool
  /-- Whether a result ends the walk. -/
  decides : Script.Value → Bool

namespace Scheme

variable (scheme : Scheme)

/-- What is done with a result at once. -/
def settle (v : Script.Value) : List Deed := if scheme.keeps then [] else [.release v]

/-- What is kept of a result. -/
def kept (v : Script.Value) : List Script.Value := if scheme.keeps then [v] else []

end Scheme

variable {scheme : Scheme} {held : σ → List Script.Value}

/-- The deeds of one step of a forward walk at an index, started in a state that holds some
results. -/
inductive StepDeeds (walk : Walk) (scheme : Scheme) (held : σ → List Script.Value) (i : Nat)
    (s : σ) : List Deed → Outcome (Step σ β) → Prop
  | refused {f : Fault} {w : World} : StepDeeds walk scheme held i s [] (.error (.fault f) w)
  | failed {element : Script.Value} {e : Halt} {w : World} :
      StepDeeds walk scheme held i s [.call (walk.callOn element i) (.error e w)] (.error e w)
  | next {element v : Script.Value} {w w' : World} {s' : σ} (hv : scheme.decides v = false)
      (hw : w'.objects = w.objects) (hs : held s' = held s ++ scheme.kept v) :
      StepDeeds walk scheme held i s
        (.call (walk.callOn element i) (.ok v w) :: scheme.settle v) (.ok (.next s') w')
  | done {element v : Script.Value} {w w' : World} {b : β} (hkeeps : scheme.keeps = false)
      (hv : scheme.decides v = true) :
      StepDeeds walk scheme held i s
        (.call (walk.callOn element i) (.ok v w) :: scheme.settle v) (.ok (.done b) w')
  | spoilt {element v : Script.Value} {w w' : World} {f : Fault} (hkeeps : scheme.keeps = false)
      (hv : scheme.decides v = true) :
      StepDeeds walk scheme held i s
        (.call (walk.callOn element i) (.ok v w) :: scheme.settle v) (.error (.fault f) w')

/-- The rest of a step, without deeds, that lets the walk go on. -/
structure GoesOn (x : Run (Step σ β)) : Prop where
  /-- It has no deeds. -/
  quiet : x.Quiet
  /-- It gives a new state. -/
  next : ∀ w, ∃ s' w', x w = .ok (.next s') w'

/-- The rest of a step, without deeds, that ends the walk, with a result or without. -/
structure Stops (x : Run (Step σ β)) : Prop where
  /-- It has no deeds. -/
  quiet : x.Quiet
  /-- It gives no new state. -/
  done : ∀ w s' w', x w ≠ .ok (.next s') w'

theorem GoesOn.pure (s : σ) : GoesOn (Pure.pure (Step.next s) : Run (Step σ β)) :=
  ⟨.pure _, fun w => ⟨s, w, rfl⟩⟩

theorem GoesOn.bind {x : Run Unit} {s : σ} (hx : x.Quiet) (hok : ∀ w, ∃ w', x w = .ok () w') :
    GoesOn (do x; Pure.pure (Step.next s) : Run (Step σ β)) := by
  refine ⟨.bind hx fun _ => .pure _, fun w => ?_⟩
  obtain ⟨w', h⟩ := hok w
  exact ⟨s, w', Run.bind_of_ok h⟩

theorem Stops.pure (b : β) : Stops (Pure.pure (Step.done b) : Run (Step σ β)) :=
  ⟨.pure _, nofun⟩

theorem Stops.bind {x : Run β} (hx : x.Quiet) :
    Stops (do return Step.done (← x) : Run (Step σ β)) := by
  refine ⟨.bind hx fun _ => .pure _, fun w s' w' h => ?_⟩
  cases hw : x w with
  | ok b w₁ =>
    rw [Run.bind_of_ok hw] at h
    cases h
  | error e w₁ =>
    rw [Run.bind_of_error hw] at h
    cases h

/-- A step that asks the callback for a condition and then, without further deeds, either goes on or
ends the walk. -/
theorem stepDeeds_test {ends : Bool → Bool} {branch : Bool → Run (Step σ β)}
    (hnext : ∀ b, ends b = false → GoesOn (branch b))
    (hdone : ∀ b, ends b = true → Stops (branch b)) (s : σ) (v : Value) (i : Nat) (w : World) :
    (walk.test eng invoke v i >>= branch).Accounted invoke w
      (StepDeeds walk ⟨false, fun v => ends v.truthy⟩ (fun _ => []) i s) := by
  refine .bind (Walk.testDeeds_test v i w) ?_ ?_
  · rintro ds _ w₁ (_ | _ | @⟨element, v, w₀, _, hw⟩)
    cases hends : ends v.truthy with
    | false =>
      have hbranch := hnext _ hends
      refine .of_quiet hbranch.quiet ?_
      have halike := hbranch.quiet.alike w₁
      obtain ⟨s', w₂, hrun⟩ := hbranch.next w₁
      rw [hrun] at halike ⊢
      exact .next hends (halike.objects.trans hw) rfl
    | true =>
      have hbranch := hdone _ hends
      refine .of_quiet hbranch.quiet ?_
      cases hrun : branch v.truthy w₁ with
      | ok step w₂ =>
        cases step with
        | next s' => exact absurd hrun (hbranch.done w₁ s' w₂)
        | done b => exact .done rfl hends
      | error e w₂ =>
        cases e with
        | fault f => exact .spoilt rfl hends
        | exhausted => exact absurd hrun (hbranch.quiet.ends w₁ w₂)
  · rintro ds e w₁ (_ | _ | _)
    · exact .refused
    · exact .failed

/-- The outcome of a walk that has found no more elements: it is not cut off, and the results it has
kept are the items of the array it ends with. -/
structure Scheme.Finishes (scheme : Scheme) (kept : List Script.Value) (r : Outcome Script.Value) :
    Prop where
  /-- It is not cut off. -/
  ends : ∀ w, r ≠ .error .exhausted w
  /-- It hands over the results it has kept. -/
  handsOver : scheme.keeps = true → ∃ a w, r = .ok (.array a) w ∧ w.arrays.get? a = some kept

/-- The deeds of a forward walk from an index on, with the steps left, the results kept so far and
the world it has reached. -/
inductive ForwardDeeds (walk : Walk) (scheme : Scheme) (target : Value) :
    Nat → Nat → List Script.Value → World → List Deed → Outcome Script.Value → Prop
  | cutOff {i : Nat} {kept : List Script.Value} {w w' : World} :
      ForwardDeeds walk scheme target 0 i kept w [] (.error .exhausted w')
  | finished {n i : Nat} {kept : List Script.Value} {w : World} {r : Outcome Script.Value}
      (hi : w.listLength target ≤ i) (hr : scheme.Finishes kept r) :
      ForwardDeeds walk scheme target (n + 1) i kept w [] r
  | refused {n i : Nat} {kept : List Script.Value} {w w' : World} {f : Fault} :
      ForwardDeeds walk scheme target (n + 1) i kept w (kept.map .release) (.error (.fault f) w')
  | lost {n i : Nat} {kept : List Script.Value} {w w' : World} {e : Halt}
      (hlist : w.list? target = none) (hw : w'.objects = w.objects) :
      ForwardDeeds walk scheme target (n + 1) i kept w (kept.map .release) (.error e w')
  | failed {n i : Nat} {kept : List Script.Value} {w w₁ w' : World} {e : Halt}
      {element : Script.Value} (hi : i < w.listLength target) :
      ForwardDeeds walk scheme target (n + 1) i kept w
        (.call (walk.callOn element i) (.error e w₁) :: kept.map .release) (.error e w')
  | decided {n i : Nat} {kept : List Script.Value} {w w₁ : World} {element v : Script.Value}
      {r : Outcome Script.Value} (hi : i < w.listLength target) (hkeeps : scheme.keeps = false)
      (hv : scheme.decides v = true) (hr : ∀ w', r ≠ .error .exhausted w') :
      ForwardDeeds walk scheme target (n + 1) i kept w
        (.call (walk.callOn element i) (.ok v w₁) :: scheme.settle v) r
  | next {n i : Nat} {kept : List Script.Value} {w w₁ w₂ : World} {element v : Script.Value}
      {ds : List Deed} {r : Outcome Script.Value} (hi : i < w.listLength target)
      (hv : scheme.decides v = false) (hw : w₂.objects = w₁.objects)
      (h : ForwardDeeds walk scheme target n (i + 1) (kept ++ scheme.kept v) w₂ ds r) :
      ForwardDeeds walk scheme target (n + 1) i kept w
        (.call (walk.callOn element i) (.ok v w₁) :: (scheme.settle v ++ ds)) r

/-- Deeds that give up what a forward walk holds. -/
def GivesUp (invoke : Invoke) (held : σ → List Script.Value) (giveUp : σ → Run Unit) : Prop :=
  ∀ s w, (giveUp s).Accounted invoke w fun ds _ => ds = (held s).map .release

/-- Who gives up leaves the host objects alone. -/
theorem GivesUp.accounted {held : σ → List Script.Value} {giveUp : σ → Run Unit}
    (h : GivesUp invoke held giveUp) (s : σ) (w : World) :
    (giveUp s).Accounted invoke w fun ds r =>
      ds = (held s).map .release ∧ (Outcome.world r).objects = w.objects := by
  obtain ⟨ds, hds, rfl⟩ := h s w
  refine ⟨_, hds, rfl, hds.keeps (P := fun w₁ => w₁.objects = w.objects)
    (fun _ _ heq hw => heq.trans hw) (by simp) (fun c hc => ?_) rfl⟩
  rw [Deed.calls_map_release] at hc
  exact absurd hc List.not_mem_nil

theorem givesUp_nothing : GivesUp invoke (fun _ : σ => []) nothing := fun _ _ => .pure rfl

section Forward

variable {step : σ → Value → Nat → Run (Step σ Script.Value)} {finish : σ → Run Script.Value}
  {giveUp : σ → Run Unit}

/-- What a forward loop reads at an index: with an element or without, the world is as it was, and
a target that is no list any more makes the walk give up. -/
private theorem accounted_elementAt (hgiveUp : GivesUp invoke held giveUp) (i : Nat) (s : σ)
    (w : World) :
    ((elementAt target i).onHalt (giveUp s)).Accounted invoke w fun ds r =>
      (∃ o, ds = [] ∧ r = .ok o w ∧ elementAt target i w = .ok o w) ∨
        ∃ e w', ds = (held s).map .release ∧ r = .error e w' ∧ w.list? target = none ∧
          w'.objects = w.objects := by
  refine .onHalt (P := fun ds r => ds = [] ∧ elementAt target i w = r)
    (.of_looks (looks_elementAt target i) ⟨rfl, rfl⟩) ?_ ?_
  · rintro ds o w₁ ⟨rfl, h⟩
    have hw : w₁ = w := by
      cases o with
      | none => exact (elementAt_eq_none h).1
      | some v => exact (elementAt_eq_some h).1
    subst hw
    exact .inl ⟨o, rfl, rfl, h⟩
  · rintro ds e w₁ ⟨rfl, h⟩
    have hworld := looks_elementAt target i w
    rw [h] at hworld
    obtain rfl : w₁ = w := hworld
    exact (hgiveUp.accounted s w₁).mono fun ds r hr =>
      .inr ⟨e, r.world, hr.1, rfl, elementAt_eq_error h, hr.2⟩

/-- A step of a forward loop that gives up where it halts. -/
private theorem accounted_step
    (hstep : ∀ s v i w, (step s v i).Accounted invoke w (StepDeeds walk scheme held i s))
    (hgiveUp : GivesUp invoke held giveUp) (s : σ) (v : Value) (i : Nat) (w : World) :
    ((step s v i).onHalt (giveUp s)).Accounted invoke w fun ds r =>
      (∃ a w', r = .ok a w' ∧ StepDeeds walk scheme held i s ds (.ok a w')) ∨
        ∃ e ds' w₁ w', r = .error e w' ∧ ds = ds' ++ (held s).map .release ∧
          StepDeeds walk scheme held i s ds' (.error e w₁ : Outcome (Step σ Script.Value)) := by
  refine .onHalt (hstep s v i w) (fun ds a w₁ h => .inl ⟨a, w₁, rfl, h⟩) fun ds e w₁ h => ?_
  exact (hgiveUp s w₁).mono fun ds' r hds' => .inr ⟨e, ds, w₁, r.world, rfl, by rw [hds'], h⟩

/-- A forward loop whose steps follow a scheme. The induction is on the steps left; the state enters
the relation only by what it holds. -/
theorem forwardDeeds_forward (held : σ → List Script.Value)
    (hstep : ∀ s v i w, (step s v i).Accounted invoke w (StepDeeds walk scheme held i s))
    (hgiveUp : GivesUp invoke held giveUp) (hheld : scheme.keeps = false → ∀ s, held s = [])
    (hfinish : ∀ s, (finish s).Quiet) (hends : ∀ s w, scheme.Finishes (held s) (finish s w)) :
    ∀ n i s w, (forward target step finish giveUp n i s).Accounted invoke w
      (ForwardDeeds walk scheme target n i (held s) w)
  | 0, i, s, w => ⟨[], .rest (.refl w), .cutOff⟩
  | n + 1, i, s, w => by
    refine .bind (accounted_elementAt hgiveUp i s w) ?_ ?_
    · rintro ds o w₁ (⟨_, rfl, ⟨⟩, helement⟩ | ⟨_, _, _, ⟨⟩, _⟩)
      cases o with
      | none => exact .of_quiet (hfinish s) (.finished (elementAt_eq_none helement).2 (hends s w))
      | some v =>
        have hi := (elementAt_eq_some helement).2
        refine .bind (accounted_step hstep hgiveUp s v i w) ?_ ?_
        · rintro ds a w₁ (⟨_, _, ⟨⟩, h⟩ | ⟨_, _, _, _, ⟨⟩, _⟩)
          cases h with
          | next hv hw hs =>
            refine (forwardDeeds_forward held hstep hgiveUp hheld hfinish hends n (i + 1) _ w₁).mono
              fun ds r h => ?_
            rw [hs] at h
            exact .next hi hv hw h
          | done hkeeps hv =>
            refine .pure ?_
            rw [List.append_nil]
            exact .decided hi hkeeps hv nofun
        · rintro ds e w₁ (⟨_, _, ⟨⟩, _⟩ | ⟨_, ds', _, _, ⟨⟩, rfl, h⟩)
          cases h with
          | refused => exact .refused
          | failed => exact .failed hi
          | spoilt hkeeps hv =>
            rw [hheld hkeeps, List.map_nil, List.append_nil]
            exact .decided hi hkeeps hv nofun
    · rintro ds e w₁ (⟨_, _, ⟨⟩, _⟩ | ⟨_, _, rfl, ⟨⟩, hlist, hw⟩)
      exact .lost hlist hw

end Forward

end Membrane
