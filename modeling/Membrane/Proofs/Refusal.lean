import Membrane.Proofs.Removal
import Membrane.Proofs.Sort.Consultation
import Membrane.Prototype.SetFunction
import Membrane.Proxy.Handler

/-!
# Writes that fail

A function that writes to a list or a set carries its arguments to the host before it writes, and
writes once. So one that fails has written nothing, however many arguments there are and whichever
of them is refused: all that is left of it are the lists into which script arrays among the
arguments were copied. A sort writes when all comparisons are made; one that fails has only
consulted its comparator.

## Main results

* `failsWithin_run`: list functions that fail only before they write.
* `consultDeeds_sort`: the deeds of a sort that fails.
* `failing_writes_nothing`: what a failing write leaves of the host objects.
-/

namespace Membrane

open Host (Value)
open Prototype (ListFunction SetFunction)

variable {eng : Engine} {invoke : Invoke} {steps : Nat} {target : Value} {this : Script.Value}
  {args : List Script.Value} {w w' : World} {e : Halt}

/-! ### Functions that carry their arguments first -/

theorem within_listValues {R : World → World → Prop} [IsPreorder World R] (target : Value) :
    (listValues target).Within R :=
  .bind (within_listItems target) fun _ => .pure _

/-- The list functions that add or overwrite elements. -/
def Prototype.ListFunction.putsIn : ListFunction → Bool
  | .push | .unshift | .fill => true
  | _ => false

theorem failsWithin_push : (OnList.push eng target args).FailsWithin World.AddsObjects :=
  .bind (eng.within_toHostAll args) fun _ => .bind (within_listItems target) fun _ =>
    .of_ok fun _ => ⟨_, _, rfl⟩

theorem failsWithin_unshift : (OnList.unshift eng target args).FailsWithin World.AddsObjects :=
  .bind (eng.within_toHostAll args) fun _ => .bind (within_listItems target) fun _ =>
    .of_ok fun _ => ⟨_, _, rfl⟩

theorem failsWithin_fill : (OnList.fill eng target this args).FailsWithin World.AddsObjects := by
  refine .bind (within_listValues target) fun items => ?_
  split
  · exact .bind (eng.within_toHost _) fun v => .of_ok fun _ => ⟨_, _, rfl⟩
  · exact .of_ok fun w => ⟨_, _, rfl⟩

theorem failsWithin_run {f : ListFunction} (hf : f.putsIn = true) :
    (f.run eng invoke steps target this args).FailsWithin World.AddsObjects := by
  cases f with
  | push => exact failsWithin_push
  | unshift => exact failsWithin_unshift
  | fill => exact failsWithin_fill
  | _ => cases hf

theorem failsWithin_add : (OnSet.add eng target this args).FailsWithin World.AddsObjects :=
  .bind (eng.within_toHost _) fun _ => .bind (within_setMembers target) fun _ =>
    .of_ok fun _ => ⟨_, _, rfl⟩

theorem failsWithin_delete : (OnSet.delete eng target args).FailsWithin World.AddsObjects :=
  .bind (eng.within_toHost _) fun _ => .bind (within_setMembers target) fun _ =>
    .of_ok fun _ => ⟨_, _, rfl⟩

/-- The trap that writes a property carries the value before it looks for what to write. -/
theorem setProperty_of_refused {h : Handler} {property value : Script.Value} {name : String}
    (hname : property.propertyName? = some name) (hvalue : eng.toHost value w = .error e w') :
    eng.setProperty h property value w = .error e w' := by
  unfold Engine.setProperty
  rw [hname]
  exact Run.bind_of_error hvalue

theorem addsObjects_of_toHost {v : Script.Value} (h : eng.toHost v w = .error e w') :
    w.AddsObjects w' :=
  Run.FailsWithin.of_within (eng.within_toHost v) w e w' h

theorem addsObjects_of_toHostAll {vs : List Script.Value} (h : eng.toHostAll vs w = .error e w') :
    w.AddsObjects w' :=
  Run.FailsWithin.of_within (eng.within_toHostAll vs) w e w' h

/-! ### Splices out of range -/

theorem splice?_of_length_le {items inserted : List Value} (hargs : args ≠ [])
    (hstart : items.length ≤ Sequence.spliceStart args items.length) :
    Sequence.splice? items args inserted =
      .error (.startOutOfRange (Sequence.spliceStart args items.length)) := by
  simp [Sequence.splice?, hargs, hstart]

/-! ### Sorts -/

/-- A sort that fails has done nothing but consult its comparator. -/
theorem consultDeeds_sort : (OnList.sort eng invoke target this args).Accounted invoke w fun ds r =>
    r.isOk = false → ConsultDeeds (Arguments.get args 0) false ds := by
  refine .bind_looks (looks_listValues target) (fun items _ => ?_) fun _ _ _ => .ended
  split
  · refine .bind (consultDeeds_sorted items args w) (fun ds sorted w₂ _ => ?_) fun ds e w₂ h _ => h
    exact ⟨[.write target (.list sorted.toArray)], .single rfl, nofun⟩
  · exact .pure nofun

/-- A write that fails has changed nothing. Of the functions that add and overwrite elements, of
those that add and remove members, of the trap that writes a property and of a splice whose inserted
values are refused or whose start lies outside the list, all host objects are left as they were; the
copies of script arrays among the arguments are all there is besides. A sort that fails, be it in
any call of its comparator or because an element is refused, has only consulted the comparator and
written nothing, so the host objects are as they were unless the comparator changes them. -/
theorem failing_writes_nothing (eng : Engine) (invoke : Invoke) (steps : Nat) (target : Value)
    (this : Script.Value) (args : List Script.Value) (w : World) :
    (∀ f : ListFunction, f.putsIn = true → ∀ e w',
      f.run eng invoke steps target this args w = .error e w' → w.AddsObjects w') ∧
    (∀ f : SetFunction, f = .add ∨ f = .delete → ∀ e w',
      f.run eng invoke target this args w = .error e w' → w.AddsObjects w') ∧
    (∀ h property value name e w', property.propertyName? = some name →
      eng.toHost value w = .error e w' →
      eng.setProperty h property value w = .error e w' ∧ w.AddsObjects w') ∧
    (∀ e w', eng.toHostAll (args.drop 2) w = .error e w' →
      (ListFunction.splice).run eng invoke steps target this args w = .error e w' ∧
        w.AddsObjects w') ∧
    (∀ (items inserted : List Value) (w' : World), w.list? target = some items.toArray → args ≠ [] →
      items.length ≤ Sequence.spliceStart args items.length →
      eng.toHostAll (args.drop 2) w = .ok inserted w' →
      (ListFunction.splice).run eng invoke steps target this args w =
          .error (.fault (.startOutOfRange (Sequence.spliceStart args items.length))) w' ∧
        w.AddsObjects w') ∧
    ∀ e w', (ListFunction.sort).run eng invoke steps target this args w = .error e w' →
      ∃ ds, Course invoke w ds w' ∧ ConsultDeeds (Arguments.get args 0) false ds ∧
        Deed.writes ds = [] ∧
        ((∀ r this args (w : World),
            (Outcome.world (invoke r this args w)).objects = w.objects) →
          w'.objects = w.objects) := by
  refine ⟨fun f hf e w' => failsWithin_run hf w e w', ?_, ?_, ?_, ?_, ?_⟩
  · rintro f (rfl | rfl) e w' h
    · exact failsWithin_add w e w' h
    · exact failsWithin_delete w e w' h
  · intro h property value name e w' hname hvalue
    exact ⟨setProperty_of_refused hname hvalue, addsObjects_of_toHost hvalue⟩
  · intro e w' h
    exact ⟨run_of_refused rfl h, addsObjects_of_toHostAll h⟩
  · intro items inserted w' hlist hargs hstart hinserted
    have hadds := eng.within_toHostAll (args.drop 2) w
    rw [hinserted] at hadds
    exact ⟨run_of_undivided rfl (hadds.list? hlist) hinserted (splice?_of_length_le hargs hstart),
      hadds⟩
  · intro e w' h
    have hrun : OnList.sort eng invoke target this args w = .error e w' := h
    have haccount : (OnList.sort eng invoke target this args).Accounted invoke w _ :=
      consultDeeds_sort
    obtain ⟨ds, hds, hconsults⟩ := haccount
    rw [hrun] at hds hconsults
    have hwrites := (hconsults rfl).writes_eq_nil
    exact ⟨ds, hds, hconsults rfl, hwrites, hds.objects_eq hwrites⟩

/-- The world with a list of two nulls. -/
def twoNulls : World := World.ofItems [.null, .null]

/-- The handler of that list. -/
def twoNullsHandler : Handler :=
  ⟨onlyList, .build Config.standard Host.Library.list false, none, none⟩

/-- What is raised when `true` is refused. -/
def refusedTrue : Halt := .fault (.raised .type "refused")

/-- A middle argument is refused, a value to insert is refused, a start lies outside the list, and a
comparator fails. -/
theorem failing_writes_nothing_refused :
    (∃ w, (ListFunction.push).run refusingTrue (fun _ _ _ => pure .null) 0 onlyList .undefined
        [.null, .boolean true, .null] twoNulls = .error refusedTrue w ∧ twoNulls.AddsObjects w) ∧
    (∃ w, (SetFunction.add).run refusingTrue (fun _ _ _ => pure .null) onlyList .undefined
        [.boolean true] twoNulls = .error refusedTrue w ∧ twoNulls.AddsObjects w) ∧
    (∃ w, refusingTrue.setProperty twoNullsHandler (.string "0") (.boolean true) twoNulls =
        .error refusedTrue w ∧ twoNulls.AddsObjects w) ∧
    (∃ w, (ListFunction.splice).run refusingTrue (fun _ _ _ => pure .null) 0 onlyList .undefined
        [.null, .null, .null, .boolean true] twoNulls = .error refusedTrue w ∧
      twoNulls.AddsObjects w) ∧
    (∃ w, (ListFunction.splice).run refusingTrue (fun _ _ _ => pure .null) 0 onlyList .undefined
        [.integer 2] twoNulls = .error (.fault (.startOutOfRange 2)) w ∧
      twoNulls.AddsObjects w) ∧
    ∃ w, (ListFunction.sort).run refusingTrue (fun _ _ _ => throw refusedTrue) 0 onlyList .undefined
        [.function ⟨0⟩] twoNulls = .error (.fault (.failedComparison "refused")) w ∧
      w.objects = twoNulls.objects := by
  have h (args : List Script.Value) :=
    failing_writes_nothing refusingTrue (fun _ _ _ => pure .null) 0 onlyList .undefined args
      twoNulls
  have hsort := failing_writes_nothing refusingTrue (fun _ _ _ => throw refusedTrue) 0 onlyList
    .undefined [.function ⟨0⟩] twoNulls
  refine ⟨⟨_, rfl, (h [.null, .boolean true, .null]).1 .push rfl refusedTrue _ rfl⟩,
    ⟨_, rfl, (h [.boolean true]).2.1 .add (.inl rfl) refusedTrue _ rfl⟩,
    ⟨_, (h []).2.2.1 _ _ _ _ refusedTrue twoNulls rfl rfl⟩,
    ⟨_, (h [.null, .null, .null, .boolean true]).2.2.2.1 refusedTrue twoNulls rfl⟩,
    ⟨_, (h [.integer 2]).2.2.2.2.1 [.null, .null] [] twoNulls rfl nofun (by decide) rfl⟩, ?_⟩
  obtain ⟨ds, -, -, -, hobjects⟩ := hsort.2.2.2.2.2 _ _ rfl
  exact ⟨_, rfl, hobjects fun _ _ _ _ => rfl⟩

end Membrane
