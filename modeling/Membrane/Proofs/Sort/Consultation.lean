import Membrane.Proofs.Quiet
import Membrane.Proofs.Sort.Inquiry
import Membrane.Prototype.ListFunction

/-!
# What a sort does

While it compares, a sort does nothing but consult its comparator: it calls it on two elements and
releases what the call returns. It does so until the last comparison is made, an element cannot be
carried to the script, or a call fails. So whatever else happens to the list in the meantime is the
work of the comparator.

## Main definitions

* `ConsultDeeds`: the deeds of some consultations.

## Main results

* `consultDeeds_sorted`: a sort follows the relation.
* `ConsultDeeds.writes_eq_nil`: it writes nothing.
* `keeps_sorted`: what the comparator keeps of the host objects, a sort keeps.
* `perm_of_sorted`: the items come out in some order.
-/

namespace Membrane

open Host (Value)

variable {eng : Engine} {invoke : Invoke} {c : Script.Value} {ds ds' : List Deed} {ok : Bool}
  {α β : Type}

/-- Whether a computation succeeds. -/
def Outcome.isOk : Outcome α → Bool
  | .ok _ _ => true
  | .error _ _ => false

@[simp] theorem Outcome.isOk_holdOnly (held : List Node) (r : Outcome α) :
    Outcome.isOk (Run.holdOnly held r) = r.isOk := by
  cases r <;> rfl

/-- The deeds of some consultations of a comparator, by whether they come to a result. Only the last
call may fail. -/
inductive ConsultDeeds (c : Script.Value) : Bool → List Deed → Prop
  | ended {ok : Bool} : ConsultDeeds c ok []
  | failed {left right : Script.Value} {e : Halt} {w : World} :
      ConsultDeeds c false [.call ⟨c, .undefined, [left, right]⟩ (.error e w)]
  | answered {left right answer : Script.Value} {w : World} {ok : Bool} {ds : List Deed}
      (h : ConsultDeeds c ok ds) :
      ConsultDeeds c ok
        (.call ⟨c, .undefined, [left, right]⟩ (.ok answer w) :: .release answer :: ds)

/-- Consultations go on after those that came to a result. -/
theorem ConsultDeeds.append (h : ConsultDeeds c true ds) (h' : ConsultDeeds c ok ds') :
    ConsultDeeds c ok (ds ++ ds') := by
  generalize htrue : true = b at h
  induction h with
  | ended => exact h'
  | failed => cases htrue
  | answered _ ih => exact .answered (ih htrue)

theorem ConsultDeeds.writes_eq_nil (h : ConsultDeeds c ok ds) : Deed.writes ds = [] := by
  induction h with
  | ended => rfl
  | failed => rfl
  | answered _ ih => exact ih

/-- Nothing but the comparator is called. -/
theorem ConsultDeeds.callee_eq (h : ConsultDeeds c ok ds) :
    ∀ call ∈ Deed.calls ds, call.1.callee = c := by
  induction h with
  | ended => simp [Deed.calls]
  | failed => simp [Deed.calls]
  | answered _ ih => simpa [Deed.calls] using ih

/-- A computation that does nothing but consult a comparator, wherever it is started. -/
def Consults (invoke : Invoke) (c : Script.Value) (x : Run α) : Prop :=
  ∀ w, x.Accounted invoke w fun ds r => ConsultDeeds c r.isOk ds

namespace Consults

variable {x : Run α} {f : α → Run β}

theorem of_quiet (hx : x.Quiet) : Consults invoke c x := fun _ => .of_quiet hx .ended

theorem of_looks (hx : x.Looks) : Consults invoke c x := fun _ => .of_looks hx .ended

theorem bind (hx : Consults invoke c x) (hf : ∀ a, Consults invoke c (f a)) :
    Consults invoke c (x >>= f) := by
  intro w
  refine .bind (hx w) (fun ds a w₁ h => ?_) fun ds e w₁ h => h
  exact (hf a w₁).mono fun ds' r h' => h.append h'

theorem scope (hx : Consults invoke c x) : Consults invoke c (Run.scope x) := by
  refine fun w => .scope ((hx w).mono fun ds r h => ?_)
  rwa [Outcome.isOk_holdOnly]

end Consults

theorem consults_comparison (left right : Value) :
    Consults invoke c (OnList.comparison eng invoke c left right) := by
  refine .bind (fun w => ?_) fun _ => .of_quiet (.pure _)
  refine .bind_quiet (eng.quiet_toScript left) (fun left w₁ _ _ => ?_) fun f w₁ _ _ => .ended
  refine .bind_quiet (eng.quiet_toScript right) (fun right w₂ _ _ => ?_) fun f w₂ _ _ => .ended
  refine .bind_call (fun answer w₃ => ?_) fun e w₃ => .failed
  exact .bind_release fun w₄ _ => .pure (.answered .ended)

/-- Whatever is compared, nothing is done but consult the comparator. -/
theorem consults_conduct (q : Inquiry Value α) :
    Consults invoke c (q.conduct (OnList.comparison eng invoke c)) := by
  induction q with
  | done a => exact .of_quiet (.pure a)
  | ask x y next ih => exact .bind (consults_comparison x y) ih

/-- To rename a fault is no deed. -/
theorem consults_asComparison {x : Run α} (hx : Consults invoke c x) :
    Consults invoke c (OnList.asComparison x) := by
  intro w
  obtain ⟨ds, hds, h⟩ := hx w
  have hsame : Outcome.world (OnList.asComparison x w) = Outcome.world (x w) ∧
      Outcome.isOk (OnList.asComparison x w) = Outcome.isOk (x w) := by
    unfold OnList.asComparison
    rcases x w with ⟨a, w'⟩ | ⟨⟨f⟩ | -, w'⟩ <;> exact ⟨rfl, rfl⟩
  refine ⟨ds, by rwa [hsame.1], ?_⟩
  change ConsultDeeds c (Outcome.isOk _) ds
  rwa [hsame.2]

/-- To bring items in the order of their texts is to look at the texts. -/
theorem looks_naturalOrder (items : List Value) : (OnList.naturalOrder items).Looks :=
  .bind (Run.Looks.holdsOfParts.mapM (fun v => .bind (.hostText v []) fun _ => .pure _) items)
    fun _ => .pure _

/-- To bring items in order is nothing but to consult the comparator, if there is one. -/
theorem consultDeeds_sorted (items : List Value) (args : List Script.Value) :
    Consults invoke (Arguments.get args 0) (OnList.sorted eng invoke items args[0]?) := by
  unfold OnList.sorted
  split
  · exact .of_looks (looks_naturalOrder items)
  · next c hc =>
    have hget : Arguments.get args 0 = c := by
      rw [Arguments.get, (Option.filter_eq_some_iff.1 hc).1, Option.getD_some]
    rw [hget]
    refine .scope (.bind (.of_quiet (Run.quiet_hold _)) fun _ => consults_asComparison ?_)
    rw [mergeSortBy_eq_conduct]
    exact consults_conduct _

/-- What a comparator keeps, sorting keeps, as far as it depends on the host objects only. -/
theorem keeps_sorted {P : World → Prop}
    (hP : ∀ w w' : World, w'.objects = w.objects → P w → P w') (eng : Engine) (items : List Value)
    (args : List Script.Value)
    (hinvoke : ∀ r this args', args[0]? = some (.function r) →
      ∀ w, P w → P (Outcome.world (invoke r this args' w)))
    {w : World} (hw : P w) :
    P (Outcome.world (OnList.sorted eng invoke items args[0]? w)) := by
  have hconsults :
      Consults invoke (Arguments.get args 0) (OnList.sorted eng invoke items args[0]?) :=
    consultDeeds_sorted items args
  obtain ⟨ds, hcourse, hds⟩ := hconsults w
  refine hcourse.keeps hP hds.writes_eq_nil (fun call hcall r hr => hinvoke r _ _ ?_) hw
  have hget : Arguments.get args 0 = .function r := (hds.callee_eq call hcall).symm.trans hr
  cases hcomparator : args[0]? with
  | none => simp [Arguments.get, hcomparator] at hget
  | some v => simpa [Arguments.get, hcomparator] using hget

/-- A comparison that succeeds is not renamed. -/
theorem ok_of_asComparison {x : Run α} {a : α} {w w' : World}
    (h : OnList.asComparison x w = .ok a w') : x w = .ok a w' := by
  unfold OnList.asComparison at h
  split at h
  · cases h
  · exact h

/-- The items in the order of their string forms. -/
def World.inTextOrder (w : World) (items : List Value) : List Value :=
  ((items.map fun v => (Text.units (w.hostText v), v)).mergeSort
    fun a b => Text.unitsLE a.1 b.1).map Prod.snd

/-- Items that all have texts are brought in the order of their texts. -/
theorem naturalOrder_of_forall {items : List Value} {w : World} (h : ∀ v ∈ items, w.HasText v) :
    OnList.naturalOrder items w = .ok (w.inTextOrder items) w :=
  Run.bind_of_ok (Run.mapM_of_forall
    (fun _ hv => Run.bind_of_ok (Run.hostText_of_hasText hv)) h)

/-- Items one of which has no text are brought in no order. -/
theorem naturalOrder_of_exists {items : List Value} {w : World} (h : ∃ v ∈ items, ¬w.HasText v) :
    OnList.naturalOrder items w = .error .exhausted w :=
  Run.bind_of_error (Run.mapM_of_exists
    (fun _ hv => Run.bind_of_ok (Run.hostText_of_hasText hv))
    (fun _ hv => Run.bind_of_error (Run.hostText_of_not_hasText hv)) h)

theorem naturalOrder_eq_ok {items sorted : List Value} {w w' : World}
    (h : OnList.naturalOrder items w = .ok sorted w') :
    (∀ v ∈ items, w.HasText v) ∧ sorted = w.inTextOrder items ∧ w' = w := by
  by_cases hitems : ∀ v ∈ items, w.HasText v
  · rw [naturalOrder_of_forall hitems] at h
    cases h
    exact ⟨hitems, rfl, rfl⟩
  · rw [naturalOrder_of_exists (by simpa using hitems)] at h
    cases h

/-- The order of string forms keeps the items. -/
theorem perm_inTextOrder (w : World) (items : List Value) : (w.inTextOrder items).Perm items := by
  have hitems : (items.map fun v => (Text.units (w.hostText v), v)).map Prod.snd = items := by
    rw [List.map_map]
    exact List.map_id items
  exact ((List.mergeSort_perm _ _).map Prod.snd).trans (.of_eq hitems)

/-- What a sort that succeeds gives is the items in some order. -/
theorem perm_of_sorted {items sorted : List Value} {comparator : Option Script.Value} {w w' : World}
    (h : OnList.sorted eng invoke items comparator w = .ok sorted w') : sorted.Perm items := by
  unfold OnList.sorted at h
  cases hcomparator : comparator.filter Script.Value.isFunction with
  | none =>
    rw [hcomparator] at h
    obtain ⟨-, rfl, -⟩ := naturalOrder_eq_ok h
    exact perm_inTextOrder w items
  | some c =>
    rw [hcomparator] at h
    obtain ⟨w₁, hsort⟩ := Run.ok_of_scope h
    replace hsort := ok_of_asComparison hsort
    rw [mergeSortBy_eq_conduct] at hsort
    exact (ends_mergeSortBy items).conduct _ hsort

/-- At most one item is in order as it is. Without a comparator its text is asked for all the
same. -/
theorem sorted_eq_ok_of_length_le {items : List Value} (h : items.length ≤ 1)
    (comparator : Option Script.Value) (w : World)
    (htext : comparator.filter Script.Value.isFunction = none → ∀ v ∈ items, w.HasText v) :
    OnList.sorted eng invoke items comparator w = .ok items w := by
  have hnatural : w.inTextOrder items = items := by
    have hperm := perm_inTextOrder w items
    rcases items with - | ⟨v, - | ⟨v', rest⟩⟩
    · exact List.perm_nil.1 hperm
    · exact List.perm_singleton.1 hperm
    · simp at h
  unfold OnList.sorted
  cases hcomparator : comparator.filter Script.Value.isFunction with
  | none =>
    have hsorted := naturalOrder_of_forall (htext hcomparator)
    rwa [hnatural] at hsorted
  | some c =>
    rcases items with - | ⟨v, - | ⟨v', rest⟩⟩
    · rfl
    · rfl
    · simp at h

end Membrane
