import Membrane.Proofs.Calling

/-!
# Safe computations

A computation is safe if, started in a world for which some condition holds, it reaches a world that
is related to the one it started from, and if it fails, then with one of some faults. The relation
is to carry the condition along, so safe computations follow one another: what the first leaves is
good for the second. Letting go, cleaning up and calling a callable are as safe as what they are
done to.

## Main definitions

* `Run.Safe`: a computation that keeps a relation and fails with certain faults only.

## Main results

* `Run.Safe.bind`, `Run.Safe.onHalt`, `Run.Safe.scope`, `Run.Safe.call`: safe ways to go on.
* `Run.Safe.holdsOfParts`: what is composed of safe parts is safe.
-/

namespace Membrane

open Host (Value)

namespace Run

variable {α β : Type} {A : World → Prop} {R : World → World → Prop} {Q : Fault → Prop}

/-- From the worlds of `A` on, a computation keeps the relation `R` and fails with faults of `Q`
only. -/
structure Safe (A : World → Prop) (R : World → World → Prop) (Q : Fault → Prop) (x : Run α) :
    Prop where
  /-- The world reached is related to the one it started from. -/
  within : ∀ w, A w → R w (Outcome.world (x w))
  /-- A fault is one of those allowed. -/
  fault : ∀ w, A w → ∀ f w', x w = .error (.fault f) w' → Q f

namespace Safe

variable {x : Run α}

/-- A computation that keeps the relation in any world and raises no fault. -/
theorem of_within (hx : x.Within R) (hok : ∀ w f w', x w ≠ .error (.fault f) w') :
    x.Safe A R Q :=
  ⟨fun w _ => hx w, fun w _ f w' h => absurd h (hok w f w')⟩

/-- Where every world is good and every fault allowed, safety is keeping the relation. -/
theorem iff_within : x.Safe (fun _ => True) R (fun _ => True) ↔ x.Within R :=
  ⟨fun h w => h.within w trivial, fun h => ⟨fun w _ => h w, fun _ _ _ _ _ => trivial⟩⟩

/-- What is safe from more worlds on is safe from fewer on. -/
theorem mono {A' : World → Prop} (hx : x.Safe A R Q) (hA : ∀ w, A' w → A w) : x.Safe A' R Q :=
  ⟨fun w hw => hx.within w (hA w hw), fun w hw => hx.fault w (hA w hw)⟩

section Refl

variable [Std.Refl R]

theorem pure (a : α) : (Pure.pure a : Run α).Safe A R Q := of_within (.pure a) nofun

theorem raise {f : Fault} (hf : Q f) : (Run.raise f : Run α).Safe A R Q :=
  ⟨fun w _ => refl w, fun w _ f' w' h => by cases h; exact hf⟩

theorem exhausted : (throw .exhausted : Run α).Safe A R Q := of_within (.throw _) nofun

end Refl

/-- A change of the world that keeps the relation. -/
theorem modify {change : World → World} (h : ∀ w, A w → R w (change w)) :
    (modify change : Run PUnit).Safe A R Q :=
  ⟨h, nofun⟩

/-- A look at the world, about which all is known that is good about it. -/
theorem get_bind {f : World → Run α}
    (hf : ∀ w, A w → R w (Outcome.world (f w w)) ∧ ∀ g w', f w w = .error (.fault g) w' → Q g) :
    (MonadState.get >>= f).Safe A R Q :=
  ⟨fun w hw => (hf w hw).1, fun w hw => (hf w hw).2⟩

theorem asComparison (hQ : ∀ text, Q (.failedComparison text)) (hx : x.Safe A R Q) :
    (OnList.asComparison x).Safe A R Q := by
  refine ⟨fun w hw => ?_, fun w hw f w' h => ?_⟩
  · have hwithin := hx.within w hw
    unfold OnList.asComparison
    cases hrun : x w with
    | ok a w' => rwa [hrun] at hwithin
    | error e w' =>
      rw [hrun] at hwithin
      cases e <;> exact hwithin
  · unfold OnList.asComparison at h
    cases hrun : x w with
    | ok a w₁ =>
      rw [hrun] at h
      cases h
    | error e w₁ =>
      rw [hrun] at h
      cases e with
      | fault f' =>
        cases h
        exact hQ _
      | exhausted => cases h

variable [IsPreorder World R] (hA : ∀ w w', A w → R w w' → A w')

include hA in
/-- What the first computation leaves is good for the second. -/
theorem bind {f : α → Run β} (hx : x.Safe A R Q) (hf : ∀ a, (f a).Safe A R Q) :
    (x >>= f).Safe A R Q := by
  refine ⟨fun w hw => ?_, fun w hw g w' h => ?_⟩
  · have hfirst := hx.within w hw
    cases hrun : x w with
    | ok a w₁ =>
      rw [hrun] at hfirst
      rw [bind_of_ok hrun]
      exact IsTrans.trans w w₁ _ hfirst ((hf a).within w₁ (hA w w₁ hw hfirst))
    | error e w₁ =>
      rw [hrun] at hfirst
      rwa [bind_of_error hrun]
  · obtain hrun | ⟨a, w₁, hrun, hrest⟩ := bind_eq_error h
    · exact hx.fault w hw g w' hrun
    · have hfirst := hx.within w hw
      rw [hrun] at hfirst
      exact (hf a).fault w₁ (hA w w₁ hw hfirst) g w' hrest

include hA in
/-- What is composed of safe parts is safe. -/
theorem holdsOfParts : HoldsOfParts fun _ x => x.Safe A R Q where
  pure := .pure
  bind := .bind hA
  look hf _ := get_bind fun w hw => ⟨(hf w).within w hw, (hf w).fault w hw⟩

include hA in
theorem onHalt {cleanup : Run Unit} (hx : x.Safe A R Q) (hcleanup : cleanup.Safe A R Q) :
    (x.onHalt cleanup).Safe A R Q := by
  refine ⟨fun w hw => ?_, fun w hw f w' h => ?_⟩
  · have hfirst := hx.within w hw
    unfold Run.onHalt
    cases hrun : x w with
    | ok a w₁ => rwa [hrun] at hfirst
    | error e w₁ =>
      rw [hrun] at hfirst
      have hend := hcleanup.within w₁ (hA w w₁ hw hfirst)
      simp only
      cases hc : cleanup w₁ with
      | ok _ w₂ | error _ w₂ =>
        rw [hc] at hend
        exact IsTrans.trans w w₁ w₂ hfirst hend
  · unfold Run.onHalt at h
    cases hrun : x w with
    | ok a w₁ =>
      rw [hrun] at h
      cases h
    | error e w₁ =>
      rw [hrun] at h
      simp only at h
      cases hc : cleanup w₁ with
      | ok _ w₂ | error _ w₂ =>
        rw [hc] at h
        cases h
        exact hx.fault w hw f w₁ hrun

section Held

variable (hrest : ∀ w ledger held, R w { w with ledger := ledger, held := held })
include hrest

theorem scope (hx : x.Safe A R Q) : (Run.scope x).Safe A R Q := by
  refine ⟨fun w hw => ?_, fun w hw f w' h => ?_⟩
  · unfold Run.scope
    rw [Outcome.world_holdOnly]
    exact IsTrans.trans w _ _ (hx.within w hw) (hrest _ _ w.held)
  · unfold Run.scope at h
    cases hrun : x w with
    | ok a w₁ =>
      rw [hrun] at h
      cases h
    | error e w₁ =>
      rw [hrun] at h
      cases h
      exact hx.fault w hw f w₁ hrun

include hA in
/-- A call is as safe as what is called. -/
theorem call {invoke : Invoke} {callee this : Script.Value} {args : List Script.Value}
    (hQ : ∀ v, Q (.notFunction v))
    (hinvoke : ∀ r, callee = .function r → (invoke r this args).Safe A R Q) :
    (Run.call invoke callee this args).Safe A R Q := by
  have hnot (v : Script.Value) : (raiseAbout (.script v) .notFunction :
      Run Script.Value).Safe A R Q :=
    (holdsOfParts hA).raiseAbout .exhausted (fun _ => .raise (hQ _)) (.script v) []
  refine .bind hA (.modify fun w _ => hrest w _ w.held) fun _ => ?_
  cases callee with
  | function r =>
    exact scope hrest (.bind hA (.modify fun w _ => hrest w w.ledger _) fun _ => hinvoke r rfl)
  | _ => exact hnot _

end Held

end Safe

end Run

end Membrane
