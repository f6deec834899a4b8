import Membrane.Proofs.ListSteps

/-!
# One list in two hands

Host and script work on one list. Whatever they do with it is a step of a plain sequence: what it is
given is carried to the host, the step is taken, and the reply is carried back. An operation that is
given what does not cross, or that the sequence refuses, fails and leaves the list as it was. So
whatever is done with the list, in any order, it goes on to hold what the plain sequence holds.

Some operations never end, and nothing comes after them. Those are the ones that are given an array
that contains itself, which has no copy, and those that are given an index out of range whose text
is not there, or has the list in it that they keep locked.

## Main definitions

* `ListOperation`: what is done with a list, by the host or by a script.
* `ListOperation.onSequence`: the same done to a plain sequence.
* `ListOperation.Endless`: the operations that never end.
* `ListOperation.outcomes`, `ListOperation.replies`: operations one after the other.

## Main results

* `ListOperation.isStep`: one operation.
* `list_refines_sequence`: any number of them.
-/

namespace Membrane

open Host (Value)
open Sequence (Edit Reply)

variable {eng : Engine} {w w₁ : World} {target : Value} {xs ys : List Value} {reply : Reply}

/-! ### Operations -/

/-- What is done with a list. -/
inductive ListOperation where
  /-- The host calls a method. -/
  | host (verb : ListVerb) (args : List Value)
  /-- A script calls a method of the host. -/
  | method (verb : ListVerb) (args : List Script.Value)
  /-- A script calls a function of its own. -/
  | function (change : ListChange) (this : Script.Value) (args : List Script.Value)
  /-- A script writes a property. -/
  | set (property value : Script.Value)
  /-- A script deletes a property. -/
  | delete (property : Script.Value)
  deriving DecidableEq

namespace ListOperation

/-- The values that come from the host. -/
def hostValues : ListOperation → List Value
  | host _ args => args
  | _ => []

section Operation

variable (eng : Engine) (invoke : Invoke) (steps : Nat) (h : Handler)

/-- An operation on the target of a handler. -/
def run : ListOperation → Run Returned
  | host verb args => do return .host (← verb.run eng.hasher h.target args)
  | method verb args => do
    let group ← Run.orRaise (h.descriptor.method? verb.name) (.noOverload verb.name args.length)
    return .script (← eng.callGroup group h.target args)
  | function change this args => do
    return .script (← change.function.run eng invoke steps h.target this args)
  | set property value => do return .script (.boolean (← eng.setProperty h property value))
  | delete property => do return .script (.boolean (← Run.deleteProperty h.target property))

/-- The step of a sequence that an operation is when it is started in a world, if what it is given
crosses. -/
def edit? (w : World) : ListOperation → Option Edit
  | host verb args => verb.edit? args
  | method verb args => (Outcome.result (eng.toHostAll args w)).toOption.bind verb.edit?
  | function change _ args =>
    (Outcome.result (eng.toHostAll (change.inserts args) w)).toOption.map (change.edit args)
  | set property value =>
    match property.propertyName? with
    | none => some (.write none .null false)
    | some name => (Outcome.result (eng.toHost value w)).toOption.map fun v =>
        .write (indexKey? name) v (h.descriptor.setter? name).isSome
  | delete property => some (.erase (property.propertyName?.bind indexKey?))

/-- The same operation on a plain sequence: the reply, unless it fails, and what the sequence is
left as. -/
def onSequence (w : World) (xs : List Value) (op : ListOperation) :
    Option Reply × List Value :=
  match (op.edit? eng h w).bind (·.apply xs) with
  | some (reply, ys) => (some reply, ys)
  | none => (none, xs)

/-- An operation never ends if it is given what is never carried across, or an index that is
refused but cannot be quoted. -/
def Endless (w : World) (xs : List Value) : ListOperation → Prop
  | host verb args => verb.Endless w h.target xs args
  | method verb args =>
    match eng.toHostAll args w with
    | .ok vs w₁ => verb.Endless w₁ h.target xs vs
    | .error e _ => e = .exhausted
  | function change _ args => Outcome.ends (eng.toHostAll (change.inserts args) w) = false
  | set property value =>
    property.propertyName?.isSome ∧ Outcome.ends (eng.toHost value w) = false
  | delete _ => False

/-- The outcomes of operations one after the other. One that fails does not keep the next from being
started, one that never ends does. -/
def outcomes : List ListOperation → World → List (Outcome Returned)
  | [], _ => []
  | op :: rest, w =>
    let outcome : Outcome Returned := op.run eng invoke steps h w
    outcome :: if Outcome.ends outcome then outcomes rest (Outcome.world outcome) else []

/-- The same operations on a plain sequence. The worlds are those in which the operations are
started, and matter only to which of them are and what the arguments are carried as. -/
def replies : List ListOperation → World → List Value → List (Option Reply × List Value)
  | [], _, _ => []
  | op :: rest, w, xs =>
    let outcome : Outcome Returned := op.run eng invoke steps h w
    let result := op.onSequence eng h w xs
    result :: if Outcome.ends outcome then replies rest (Outcome.world outcome) result.2 else []

/-- Whenever the host gives a value that refers to an object, the object is there. -/
def Known : List ListOperation → World → Prop
  | [], _ => True
  | op :: rest, w =>
    (∀ v ∈ op.hostValues, w.Knows v) ∧
      (Outcome.ends (op.run eng invoke steps h w) →
        Known rest (Outcome.world (op.run eng invoke steps h w)))

end Operation

end ListOperation

/-- An outcome is what a plain sequence gave: both failed, or what was returned is the reply. The
list holds what is left of the sequence, also where the operation never ends. -/
inductive Outcome.Agrees (target : Value) :
    Outcome Returned → Option Reply × List Value → Prop
  /-- Both failed. -/
  | fails {f : Fault} {w : World} {xs : List Value} (h : w.HoldsSequence target xs) :
    Agrees target (.error (.fault f) w) (none, xs)
  /-- The operation never ends, and nothing has been done. -/
  | endless {w : World} {xs : List Value} (h : w.HoldsSequence target xs) :
    Agrees target (.error .exhausted w) (none, xs)
  /-- The reply is returned. -/
  | replies {a : Returned} {w : World} {reply : Reply} {xs : List Value}
      (hreply : w.Returns reply a) (h : w.HoldsSequence target xs) :
    Agrees target (.ok a w) (some reply, xs)

/-- An operation that is started in a world is a step of a plain sequence. -/
structure ListOperation.IsStep (eng : Engine) (invoke : Invoke) (steps : Nat) (h : Handler)
    (target : Value) (w : World) (xs : List Value) (op : ListOperation) : Prop where
  /-- What it gives is what the sequence gives. -/
  agrees : Outcome.Agrees target (op.run eng invoke steps h w) (op.onSequence eng h w xs)
  /-- When it never ends. -/
  endless_iff : Outcome.ends (op.run eng invoke steps h w) = false ↔ op.Endless eng h w xs

section Agreement

variable {edit : Edit} {verb : ListVerb} {change : ListChange} {args : List Value}

variable {h : Handler} {invoke : Invoke} {steps : Nat}

theorem ListOperation.onSequence_of_apply {op : ListOperation}
    (hedit : op.edit? eng h w = some edit)
    (happly : edit.apply xs = some (reply, ys)) : op.onSequence eng h w xs = (some reply, ys) := by
  unfold ListOperation.onSequence
  rw [hedit, Option.bind_some, happly]

theorem ListOperation.onSequence_of_refused {op : ListOperation}
    (hrefused : (op.edit? eng h w).bind (·.apply xs) = none) :
    op.onSequence eng h w xs = (none, xs) := by
  unfold ListOperation.onSequence
  rw [hrefused]

/-- A step that an operation comes to after what it was given has crossed: the list is changed and
the reply given to the script. -/
theorem ListOperation.isStep_of_give (hopen : eng.Open) {op : ListOperation}
    (hedit : op.edit? eng h w = some edit) (happly : edit.apply xs = some (reply, ys))
    (hends : ¬op.Endless eng h w xs) (hholds : w₁.HoldsSequence target xs)
    (hvalues : ∀ v ∈ edit.values, w₁.Knows v) (done : Script.Value) (hrun : ∀ s w₂,
      eng.give done reply (w₁.putData target (.list ys.toArray)) = .ok s w₂ →
        op.run eng invoke steps h w = .ok (.script s) w₂) :
    op.IsStep eng invoke steps h target w xs := by
  obtain ⟨hleft, hreply⟩ := hholds.step happly hvalues
  obtain ⟨s, w₂, hs, hreturns, hheld⟩ := hleft.give hopen hreply done
  constructor
  · rw [hrun s w₂ hs, ListOperation.onSequence_of_apply hedit happly]
    exact .replies hreturns hheld
  · rw [hrun s w₂ hs]
    exact iff_of_false nofun hends

/-- An operation that gives nothing where its step is refused, or where what it is given does not
cross. -/
theorem ListOperation.isStep_of_error {op : ListOperation} {e : Halt}
    (hrefused : (op.edit? eng h w).bind (·.apply xs) = none)
    (hrun : op.run eng invoke steps h w = .error e w₁)
    (hends : e = .exhausted ↔ op.Endless eng h w xs) (hholds : w₁.HoldsSequence target xs) :
    op.IsStep eng invoke steps h target w xs := by
  constructor
  · rw [hrun, ListOperation.onSequence_of_refused hrefused]
    cases e with
    | fault f => exact .fails hholds
    | exhausted => exact .endless hholds
  · rw [hrun, ← hends]
    cases e with
    | fault f => exact iff_of_false nofun nofun
    | exhausted => exact iff_of_true rfl rfl

variable (hopen : eng.Open) (hh : h.ServesList target) (hholds : w.HoldsSequence target xs)

include hh hholds in
/-- The host calls a method. -/
theorem ListOperation.isStep_host (verb : ListVerb) {args : List Value}
    (hargs : ∀ v ∈ args, w.Knows v) :
    (host verb args).IsStep eng invoke steps h target w xs := by
  obtain rfl := hh.target
  cases hstep : (verb.edit? args).bind (·.apply xs) with
  | none =>
    obtain ⟨e, he, hends⟩ := ListVerb.run_of_refused hstep hholds.list
    exact isStep_of_error hstep (Run.bind_of_error he) hends hholds
  | some result =>
    obtain ⟨edit, hedit, happly⟩ := Option.bind_eq_some_iff.1 hstep
    have hrun : (host verb args).run eng invoke steps h w =
        .ok (.host result.1.toHost) (w.putData h.target (.list result.2.toArray)) :=
      Run.bind_of_ok (ListVerb.run_of_apply hedit happly hholds)
    have hstepped : (host verb args).onSequence eng h w xs = (some result.1, result.2) :=
      onSequence_of_apply hedit happly
    constructor
    · rw [hrun, hstepped]
      exact .replies (ListVerb.returns_toHost hedit happly _)
        (hholds.step happly fun v hv => hargs v (ListVerb.values_subset hedit hv)).1
    · rw [hrun]
      exact iff_of_false nofun (ListVerb.not_endless_of_apply hedit happly)

include hopen hh hholds in
/-- A script calls a method of the host. -/
theorem ListOperation.isStep_method (verb : ListVerb) (args : List Script.Value) :
    (method verb args).IsStep eng invoke steps h target w xs := by
  obtain rfl := hh.target
  obtain ⟨g, hg, hcall⟩ := callGroup_listMethods eng hh verb
  have hrun : (method verb args).run eng invoke steps h w =
      ((eng.toHostAll args >>= fun vs => verb.run eng.hasher h.target vs >>= eng.toScript) >>=
        fun s => pure (.script s)) w := by
    rw [← hcall]
    simp only [ListOperation.run, hg]
    rfl
  cases hargs : eng.toHostAll args w with
  | error e w₁ =>
    refine isStep_of_error ?_ (hrun.trans (Run.bind_of_error (Run.bind_of_error hargs))) ?_
      (hholds.addsObjects (addsObjects_of_toHostAll hargs))
    · simp only [edit?, hargs]
      rfl
    · simp only [Endless, hargs]
  | ok vs w₁ =>
    have hheld := hholds.addsObjects ((eng.within_toHostAll args).rel_of_ok hargs)
    have hedit : (method verb args).edit? eng h w = verb.edit? vs := by
      simp only [edit?, hargs]
      rfl
    have hendless : (method verb args).Endless eng h w xs ↔ verb.Endless w₁ h.target xs vs := by
      simp only [Endless, hargs]
    cases hstep : (verb.edit? vs).bind (·.apply xs) with
    | none =>
      obtain ⟨e, he, hends⟩ := ListVerb.run_of_refused hstep hheld.list
      exact isStep_of_error (hedit ▸ hstep) (hrun.trans (Run.bind_of_error
        ((Run.bind_of_ok hargs).trans (Run.bind_of_error he)))) (hends.trans hendless.symm) hheld
    | some result =>
      obtain ⟨edit, hverb, happly⟩ := Option.bind_eq_some_iff.1 hstep
      refine isStep_of_give hopen (hedit.trans hverb) happly
        (hendless.not.2 (ListVerb.not_endless_of_apply hverb happly)) hheld
        (fun v hv => Engine.knows_of_toHostAll hholds.targets hargs v
          (ListVerb.values_subset hverb hv))
        .null fun s w₂ hs => hrun.trans (Run.bind_of_ok ?_)
      rw [← Engine.toScript_toHost hopen (ListVerb.returns_toHost hverb happly _)] at hs
      exact (Run.bind_of_ok hargs).trans
        ((Run.bind_of_ok (ListVerb.run_of_apply hverb happly hheld)).trans hs)

include hopen hh hholds in
/-- A script calls a function of its own. -/
theorem ListOperation.isStep_function (change : ListChange) (this : Script.Value)
    (args : List Script.Value) :
    (function change this args).IsStep eng invoke steps h target w xs := by
  obtain rfl := hh.target
  cases hargs : eng.toHostAll (change.inserts args) w with
  | error e w₁ =>
    refine isStep_of_error ?_ (Run.bind_of_error (ListChange.run_of_refused hargs)) ?_
      (hholds.addsObjects (addsObjects_of_toHostAll hargs))
    · simp only [edit?, hargs]
      rfl
    · simp only [Endless, hargs]
      exact Outcome.ends_error_iff.symm
  | ok vs w₁ =>
    have hheld := hholds.addsObjects ((eng.within_toHostAll _).rel_of_ok hargs)
    have hedit : (function change this args).edit? eng h w = some (change.edit args vs) := by
      simp only [edit?, hargs]
      rfl
    have hends : ¬(function change this args).Endless eng h w xs := by
      simp only [Endless, hargs]
      exact nofun
    cases hstep : (change.edit args vs).apply xs with
    | none =>
      obtain ⟨f, hf⟩ := ListChange.run_of_apply_eq_none hargs hstep hheld.list
      refine isStep_of_error ?_ (Run.bind_of_error hf) (iff_of_false nofun hends) hheld
      rw [hedit]
      exact hstep
    | some result =>
      refine isStep_of_give hopen hedit hstep hends hheld (fun v hv =>
        Engine.knows_of_toHostAll hholds.targets hargs v (change.values_subset args vs hv))
        this fun s w₂ hs => Run.bind_of_ok ?_
      exact (ListChange.run_of_apply hargs hstep hheld.list).trans hs

include hopen hh hholds in
/-- A script writes a property. -/
theorem ListOperation.isStep_set (property value : Script.Value) :
    (set property value).IsStep eng invoke steps h target w xs := by
  obtain rfl := hh.target
  cases hname : property.propertyName? with
  | none =>
    have hedit : (set property value).edit? eng h w = some (.write none .null false) := by
      simp only [edit?, hname]
    have hends : ¬(set property value).Endless eng h w xs := by
      simp [Endless, hname]
    refine isStep_of_give hopen hedit rfl hends hholds (by simp [Edit.values, World.Knows]) .null
      fun s w₂ hs => ?_
    have hrun : eng.setProperty h property value w = .ok false w := by
      simp only [Engine.setProperty, hname]
      rfl
    rw [hholds.putData_self] at hs
    cases hs
    exact Run.bind_of_ok hrun
  | some name =>
    cases hvalue : eng.toHost value w with
    | error e w₁ =>
      refine isStep_of_error ?_ (Run.bind_of_error (setProperty_of_refused hname hvalue)) ?_
        (hholds.addsObjects (addsObjects_of_toHost hvalue))
      · simp only [edit?, hname, hvalue]
        rfl
      · simp only [Endless, hname, hvalue, Option.isSome_some, true_and]
        exact Outcome.ends_error_iff.symm
    | ok v w₁ =>
      have hheld := hholds.addsObjects ((eng.within_toHost value).rel_of_ok hvalue)
      have hedit : (set property value).edit? eng h w =
          some (.write (indexKey? name) v (h.descriptor.setter? name).isSome) := by
        simp only [edit?, hname, hvalue]
        rfl
      have hends : ¬(set property value).Endless eng h w xs := by
        simp only [Endless, hvalue]
        rintro ⟨-, hends⟩
        cases hends
      cases hstep : (Edit.write (indexKey? name) v (h.descriptor.setter? name).isSome).apply xs with
      | none => cases hstep
      | some result =>
        obtain ⟨b, hreply, hrun⟩ := Engine.setProperty_of_apply hh hname hvalue hheld hstep
        refine isStep_of_give hopen hedit hstep hends hheld (List.forall_mem_singleton.2
          (Engine.knows_of_toHost hholds.targets hvalue)) .null fun s w₂ hs => ?_
        rw [hreply] at hs
        cases hs
        exact Run.bind_of_ok hrun

include hopen hh hholds in
/-- A script deletes a property. -/
theorem ListOperation.isStep_delete (property : Script.Value) :
    (delete property).IsStep eng invoke steps h target w xs := by
  obtain rfl := hh.target
  cases hstep : (Edit.erase (property.propertyName?.bind indexKey?)).apply xs with
  | none => cases hstep
  | some result =>
    obtain ⟨b, hreply, hrun⟩ := Run.deleteProperty_of_apply hholds hstep
    refine isStep_of_give hopen rfl hstep id hholds nofun .null fun s w₂ hs => ?_
    rw [hreply] at hs
    cases hs
    exact Run.bind_of_ok hrun

include hopen hh hholds in
/-- One operation is one step of the sequence that the list holds. -/
theorem ListOperation.isStep (op : ListOperation) (hknown : ∀ v ∈ op.hostValues, w.Knows v) :
    op.IsStep eng invoke steps h target w xs := by
  cases op with
  | host verb args => exact isStep_host hh hholds verb hknown
  | method verb args => exact isStep_method hopen hh hholds verb args
  | function change this args => exact isStep_function hopen hh hholds change this args
  | set property value => exact isStep_set hopen hh hholds property value
  | delete property => exact isStep_delete hopen hh hholds property

/-- After an operation the list holds what is left of the sequence. -/
theorem Outcome.Agrees.holds {outcome : Outcome Returned} {result : Option Reply × List Value}
    (hagrees : Outcome.Agrees target outcome result) :
    (Outcome.world outcome).HoldsSequence target result.2 := by
  cases hagrees with
  | fails hheld => exact hheld
  | endless hheld => exact hheld
  | replies _ hheld => exact hheld

include hopen hh hholds in
/-- Operations one after the other are the steps of the sequence that the list holds at first. -/
theorem ListOperation.forall₂_agrees (ops : List ListOperation)
    (hknown : Known eng invoke steps h ops w) :
    List.Forall₂ (Outcome.Agrees target) (outcomes eng invoke steps h ops w)
      (replies eng invoke steps h ops w xs) := by
  induction ops generalizing w xs with
  | nil => exact .nil
  | cons op ops ih =>
    have hagrees : Outcome.Agrees target (op.run eng invoke steps h w)
        (op.onSequence eng h w xs) := (op.isStep hopen hh hholds hknown.1).agrees
    refine .cons hagrees ?_
    cases hends : Outcome.ends (op.run eng invoke steps h w) with
    | true => exact ih hagrees.holds (hknown.2 hends)
    | false => exact .nil

/-- An operation that fails or is answered with `false` leaves the sequence as it was. -/
theorem ListOperation.onSequence_of_fails {op : ListOperation}
    (hreply : (op.onSequence eng h w xs).1 = none ∨
      (op.onSequence eng h w xs).1 = some (.truth false)) :
    (op.onSequence eng h w xs).2 = xs := by
  cases hstep : (op.edit? eng h w).bind (·.apply xs) with
  | none => rw [onSequence_of_refused hstep]
  | some result =>
    obtain ⟨edit, hedit, happly⟩ := Option.bind_eq_some_iff.1 hstep
    have heq : op.onSequence eng h w xs = (some result.1, result.2) :=
      onSequence_of_apply hedit happly
    rw [heq] at hreply ⊢
    obtain hnone | hfalse := hreply
    · cases hnone
    · have happly' : edit.apply xs = some (.truth false, result.2) := by
        rw [happly, ← Option.some.inj hfalse]
      exact Edit.eq_of_apply_false happly'

end Agreement

/-- The host adds an item and a script takes it out. A script writes an item, and tries in vain to
delete one. The host tries in vain to take out another, and then one whose index is the list itself.
This is never refused, so nothing comes after it. -/
def mixedOperations : List ListOperation :=
  [.host .add [.string "a"], .function .pop .undefined [], .set (.string "0") .null,
    .delete (.string "7"), .host .remove [.integer 2], .host .remove [onlyList], .host .clear []]

end Membrane
