import Membrane.Proofs.Turns

/-!
# Folds of lists

Two functions of lists fold the elements into one value, from the first to the last and from the
last to the first. The accumulator is an initial value, if there is one, or else what the first
element in this order is carried to the script as; an initial value that is undefined is one.
A callback is given the accumulator, an element and its index, and what it returns is the next
accumulator.

## Main definitions

* `FoldsTo`: the calls of a fold from a seed.
* `Folds`: the calls of a fold that has an initial value or not.

## Main results

* `accounted_fold`: both functions fold, each in its order.
* `reduce_folds`: the calls, their number and the outcome of both functions.
-/

namespace Membrane

open Host (Value)
open Prototype (ListFunction)

section Relations

variable (eng : Engine) (invoke : Invoke) (callback this : Script.Value)

/-- The calls of a fold of some elements with their indices, from a seed on, and its outcome. The
value each call returns is the accumulator of the next, and the last one is the result. -/
inductive FoldsTo (seed : Script.Value) (vs : List (Value × Nat))
    (cs : List (Call × Outcome Script.Value)) : Outcome Script.Value → Prop
  /-- All elements are folded in. -/
  | passed {acc : Script.Value} {w : World}
      (h : TakesTurns eng invoke (foldOn callback this) (fun _ _ _ a => some a) seed vs cs
        (.passed acc)) : FoldsTo seed vs cs (.ok acc w)
  /-- A call fails, or an element cannot be carried to the script. -/
  | halted {e : Halt} {w : World}
      (h : TakesTurns eng invoke (foldOn callback this) (fun _ _ _ a => some a) seed vs cs
        (.halted e)) : FoldsTo seed vs cs (.error e w)

/-- The calls of a fold of some elements with their indices, started in a world, and its outcome.
Without an initial value the first of the elements is the seed. -/
inductive Folds (w : World) : Option Script.Value → List (Value × Nat) →
    List (Call × Outcome Script.Value) → Outcome Script.Value → Prop
  /-- There is an initial value. -/
  | given {seed : Script.Value} {vs : List (Value × Nat)}
      {cs : List (Call × Outcome Script.Value)} {r : Outcome Script.Value}
      (h : FoldsTo eng invoke callback this seed vs cs r) : Folds w (some seed) vs cs r
  /-- There is nothing to start with. -/
  | empty : Folds w none [] [] (.error (.fault .emptyReduce) w)
  /-- The first element cannot be carried to the script. -/
  | refused {v : Value} {i : Nat} {rest : List (Value × Nat)} {e : Halt} {w₁ : World}
      (hv : eng.toScript v w = .error e w₁) : Folds w none ((v, i) :: rest) [] (.error e w₁)
  /-- The first element is the seed. -/
  | first {v : Value} {i : Nat} {rest : List (Value × Nat)} {seed : Script.Value} {w₁ : World}
      {cs : List (Call × Outcome Script.Value)} {r : Outcome Script.Value}
      (hv : eng.toScript v w = .ok seed w₁)
      (h : FoldsTo eng invoke callback this seed rest cs r) : Folds w none ((v, i) :: rest) cs r

end Relations

section Facts

variable {eng : Engine} {invoke : Invoke} {callback this : Script.Value} {w : World}
  {vs : List (Value × Nat)} {cs : List (Call × Outcome Script.Value)} {r : Outcome Script.Value}

theorem FoldsTo.aborts {seed : Script.Value} (h : FoldsTo eng invoke callback this seed vs cs r)
    {k : Nat} {c : Call} {e : Halt} {w₁ : World} (hc : cs[k]? = some (c, .error e w₁)) :
    k + 1 = cs.length ∧ ∃ w₂, r = .error e w₂ := by
  cases h with
  | passed h => cases (h.aborts hc).2
  | halted h =>
    obtain ⟨hk, he⟩ := h.aborts hc
    cases he
    exact ⟨hk, _, rfl⟩

theorem FoldsTo.of_error {seed : Script.Value} (h : FoldsTo eng invoke callback this seed vs cs r)
    {e : Halt} {w₁ : World} (hr : r = .error e w₁) :
    (∃ c w₂, cs.getLast? = some (c, .error e w₂)) ∨
      ∃ p ∈ vs, ∃ w₂ w₃, eng.toScript p.1 w₂ = .error e w₃ := by
  cases h with
  | passed h => cases hr
  | halted h =>
    cases hr
    exact h.of_halted rfl

/-- A loop that carries on what its calls return comes to what the last of them returned. -/
theorem TakesTurns.last_of_passed {callOn : Script.Value → Script.Value → Nat → Call}
    {seed acc : Script.Value} {e : Ending Script.Value}
    (h : TakesTurns eng invoke callOn (fun _ _ _ a => some a) seed vs cs e)
    (he : e = .passed acc) : cs = [] ∧ acc = seed ∨ ∃ c w₁, cs.getLast? = some (c, .ok acc w₁) := by
  induction h with
  | passed s =>
    cases he
    exact .inl ⟨rfl, rfl⟩
  | next _ _ hnext _ ih =>
    cases hnext
    refine .inr ?_
    obtain ⟨rfl, rfl⟩ | ⟨c, w₁, hlast⟩ := ih he
    · exact ⟨_, _, rfl⟩
    · exact ⟨c, w₁, by rw [List.getLast?_cons, hlast]; rfl⟩
  | _ => cases he

theorem FoldsTo.of_getLast? {seed : Script.Value}
    (h : FoldsTo eng invoke callback this seed vs cs r) {a : Script.Value} {w₁ : World}
    (hr : r = .ok a w₁) {c : Call} {o : Outcome Script.Value} (hc : cs.getLast? = some (c, o)) :
    ∃ w₂, o = .ok a w₂ := by
  cases h with
  | halted h => cases hr
  | passed h =>
    cases hr
    obtain ⟨rfl, -⟩ | ⟨c', w₂, hlast⟩ := h.last_of_passed rfl
    · cases hc
    · cases hlast.symm.trans hc
      exact ⟨w₂, rfl⟩

namespace Folds

variable {initial? : Option Script.Value}

/-- The first call that fails is the last one, and the fold fails with its error. -/
theorem aborts (h : Folds eng invoke callback this w initial? vs cs r) {k : Nat} {c : Call}
    {e : Halt} {w₁ : World} (hc : cs[k]? = some (c, .error e w₁)) :
    k + 1 = cs.length ∧ ∃ w₂, r = .error e w₂ := by
  cases h with
  | given h => exact h.aborts hc
  | first _ h => exact h.aborts hc
  | _ => cases hc

/-- A fold that succeeds makes one call for each element, the seed aside. -/
theorem length_of_ok (h : Folds eng invoke callback this w initial? vs cs r) {a : Script.Value}
    {w₁ : World} (hr : r = .ok a w₁) :
    cs.length = if initial?.isSome then vs.length else vs.length - 1 := by
  cases h with
  | given h =>
    cases h with
    | passed h => exact h.length_of_passed rfl
    | halted h => cases hr
  | first _ h =>
    cases h with
    | passed h => exact h.length_of_passed rfl
    | halted h => cases hr
  | _ => cases hr

/-- The result of a fold is what the last call returned, if there was any. -/
theorem of_getLast? (h : Folds eng invoke callback this w initial? vs cs r) {a : Script.Value}
    {w₁ : World} (hr : r = .ok a w₁) {c : Call} {o : Outcome Script.Value}
    (hc : cs.getLast? = some (c, o)) : ∃ w₂, o = .ok a w₂ := by
  cases h with
  | given h => exact h.of_getLast? hr hc
  | first _ h => exact h.of_getLast? hr hc
  | _ => cases hc

/-- A fold fails with the error of its last call, with that of an element that cannot be carried to
the script, or because there is nothing to start with. -/
theorem of_error (h : Folds eng invoke callback this w initial? vs cs r) {e : Halt} {w₁ : World}
    (hr : r = .error e w₁) :
    (∃ c w₂, cs.getLast? = some (c, .error e w₂)) ∨
      (∃ p ∈ vs, ∃ w₂ w₃, eng.toScript p.1 w₂ = .error e w₃) ∨
      initial? = none ∧ vs = [] ∧ e = .fault .emptyReduce := by
  cases h with
  | given h => exact (h.of_error hr).imp_right .inl
  | empty =>
    cases hr
    exact .inr (.inr ⟨rfl, rfl, rfl⟩)
  | refused hv =>
    cases hr
    exact .inr (.inl ⟨_, List.mem_cons_self, _, _, hv⟩)
  | first _ h =>
    obtain hlast | ⟨p, hp, hv⟩ := h.of_error hr
    · exact .inl hlast
    · exact .inr (.inl ⟨p, List.mem_cons_of_mem _ hp, hv⟩)

end Folds

end Facts

/-! ### The two functions -/

section Functions

variable {eng : Engine} {invoke : Invoke} {target : Value} {this : Script.Value}
  {args : List Script.Value} {items : List Value} {vs : List (Value × Nat)} {w : World}
  {I : World → Prop}

theorem does_foldTurns {callback : Script.Value} :
    (foldTurns callback this).Does invoke (fun _ _ _ a => some a)
      (fun _ _ => (return .undefined : Run Script.Value)) where
  reacts _ _ _ _ _ := .bind_release fun _ _ => .pure ⟨rfl, .next rfl⟩
  finishes := .pure
  givesUp acc _ := ⟨[.release acc], .single rfl, rfl⟩

/-- A turn of a fold leaves the list alone if the callback does. -/
theorem within_turn_foldTurns {callback : Script.Value}
    (hkeeps : LeavesList I invoke callback target) (acc : Script.Value) (v : Value) (i : Nat) :
    ((foldTurns callback this).turn eng invoke acc v i).Within
      (World.Under I (World.KeepsList target)) := by
  refine Turns.within_turn (fun _ _ _ => rfl) hkeeps (fun acc v i a => ?_) acc v i
  exact .bind (hkeeps.within_of_adds (Run.adds_release acc) fun _ => rfl) fun _ => .pure _

/-- The loop of a fold makes the calls of a fold. -/
theorem accounted_run_foldTurns {callback : Script.Value}
    (hkeeps : LeavesList I invoke callback target) (seed : Script.Value) (hw : I w) :
    ((foldTurns callback this).run eng invoke vs seed).Accounted invoke w fun ds r =>
      FoldsTo eng invoke callback this seed vs (Deed.calls ds) r := by
  refine (Turns.accounted_run (fun _ _ _ a => some a) does_foldTurns (within_turn_foldTurns hkeeps)
    (fun _ _ _ _ _ _ _ _ => rfl) seed hw).mono ?_
  rintro ds r ⟨e, h, hr⟩
  cases hr with
  | passed hacc =>
    cases hacc
    exact .passed h
  | halted e w => exact .halted h
  | answered hb => exact absurd rfl (h.ne_stopped (fun _ _ _ _ => rfl) _ _)
  | spoilt hb => exact absurd rfl (h.ne_stopped (fun _ _ _ _ => rfl) _ _)

variable (hcallback : (Arguments.get args 0).isFunction = true)
  (hkeeps : LeavesList I invoke (Arguments.get args 0) target) (hw : I w)
  (hlist : w.list? target = some items.toArray)
include hcallback hkeeps hw hlist

/-- A function that folds in some order folds the items in this order. -/
theorem accounted_fold {order : Nat → List Nat} (hvs : ∀ p ∈ vs, items[p.2]? = some p.1)
    (horder : order items.length = vs.map Prod.snd) (hlength : vs.length = items.length) :
    (OnList.fold eng invoke target this args order).Accounted invoke w fun ds r =>
      Folds eng invoke (Arguments.get args 0) this w args[1]? vs (Deed.calls ds) r := by
  have hfolds {vs : List (Value × Nat)} (hvs : ∀ p ∈ vs, items[p.2]? = some p.1)
      (seed : Script.Value) {w : World} (hw : I w) (hlist : w.list? target = some items.toArray) :
      (OnList.foldIndices eng invoke target this (Arguments.get args 0) (vs.map Prod.snd)
        seed).Accounted invoke w fun ds r =>
        FoldsTo eng invoke (Arguments.get args 0) this seed vs (Deed.calls ds) r := by
    unfold Run.Accounted
    rw [foldIndices_eq_run (within_turn_foldTurns hkeeps) hvs hw hlist]
    exact accounted_run_foldTurns hkeeps seed hw
  -- The seed is the initial value or else the first item, and the rest is folded from it on.
  refine .bind_of_ok (Arguments.callback_eq_ok hcallback) (.bind_of_ok
    (listItems_eq_ok_of_list? hlist) ?_)
  rw [List.size_toArray]
  dsimp only
  rw [horder]
  cases args[1]? with
  | some initial => exact (hfolds hvs initial hw hlist).mono fun _ _ h => .given h
  | none =>
    cases vs with
    | nil => exact .of_quiet (.raise _) .empty
    | cons p rest =>
      obtain ⟨v, i⟩ := p
      obtain ⟨hv, hrest⟩ := List.forall_mem_cons.1 hvs
      have helement : elementAt target i w = .ok (some v) w := hv ▸ elementAt_eq_ok hlist i
      refine .bind_of_ok helement (.bind_quiet (eng.quiet_toScript v)
        (fun seed w₁ halike hseed => ?_) fun f w₁ _ hseed => .refused hseed)
      split
      · next hone =>
        have hnone : rest = [] := by
          rw [← List.length_eq_zero_iff]
          rw [List.length_cons] at hlength
          omega
        subst hnone
        exact .pure (.first hseed (.passed (.passed seed)))
      · have hw₁ : I w₁ :=
          hkeeps.lasts w w₁ ((eng.within_toScript v).rel_of_ok hseed).adds hw
        exact (hfolds hrest seed hw₁ ((halike.list? target).trans hlist)).mono fun _ _ h =>
          .first hseed h

end Functions

/-- The items that a function folds, with their indices and in the order in which it does. -/
def Prototype.ListFunction.folded? (items : List Value) :
    ListFunction → Option (List (Value × Nat))
  | .reduce => some items.zipIdx
  | .reduceRight => some items.zipIdx.reverse
  | _ => none

theorem accounted_folded {eng : Engine} {invoke : Invoke} {target : Value} {this : Script.Value}
    {args : List Script.Value} {items : List Value} {w : World} (steps : Nat)
    (hcallback : (Arguments.get args 0).isFunction = true) {I : World → Prop}
    (hkeeps : LeavesList I invoke (Arguments.get args 0) target) (hw : I w)
    (hlist : w.list? target = some items.toArray) {f : ListFunction} {vs : List (Value × Nat)}
    (h : f.folded? items = some vs) :
    (f.run eng invoke steps target this args).Accounted invoke w fun ds r =>
      Folds eng invoke (Arguments.get args 0) this w args[1]? vs (Deed.calls ds) r := by
  have hitems : ∀ p ∈ items.zipIdx, items[p.2]? = some p.1 := fun p hp =>
    List.mem_zipIdx_iff_getElem?.1 hp
  have hindices : List.range items.length = items.zipIdx.map Prod.snd := by
    rw [List.zipIdx_map_snd, List.range_eq_range']
  cases f with
  | reduce =>
    cases h
    exact accounted_fold hcallback hkeeps hw hlist hitems hindices List.length_zipIdx
  | reduceRight =>
    cases h
    change (OnList.fold eng invoke target this args fun length =>
      (List.range length).reverse).Accounted invoke w _
    refine accounted_fold hcallback hkeeps hw hlist
      (fun p hp => hitems p (List.mem_reverse.1 hp)) ?_
      ?_
    · rw [hindices, List.map_reverse]
    · rw [List.length_reverse, List.length_zipIdx]
  | _ => cases h

/-- A fold, without an initial value or with one, makes its calls one after the other and hands on
what each of them returns. -/
structure FoldsElements (eng : Engine) (invoke : Invoke) (callback this : Script.Value) (w : World)
    (initial? : Option Script.Value) (vs : List (Value × Nat))
    (cs : List (Call × Outcome Script.Value)) (r : Outcome Script.Value) : Prop where
  /-- The calls and the outcome are those of a fold. -/
  folds : Folds eng invoke callback this w initial? vs cs r
  /-- If it succeeds, there is a call for each element, and one less without an initial value. -/
  number : ∀ a w₁, r = .ok a w₁ → cs.length = if initial?.isSome then vs.length else vs.length - 1
  /-- If it succeeds, the result is what the last call returned. -/
  result : ∀ a w₁, r = .ok a w₁ → ∀ c o, cs.getLast? = some (c, o) → ∃ w₂, o = .ok a w₂
  /-- The first call that fails is the last one, and the fold fails with its error. -/
  aborts : ∀ k c e w₁, cs[k]? = some (c, .error e w₁) → k + 1 = cs.length ∧ ∃ w₂, r = .error e w₂
  /-- Unless a call or the crossing of an element fails so, the fold complains of an empty list just
  if there are no elements and no initial value. -/
  complains : (∀ c w₁, cs.getLast? ≠ some (c, .error (.fault .emptyReduce) w₁)) →
    (∀ p ∈ vs, ∀ w₁ w₂, eng.toScript p.1 w₁ ≠ .error (.fault .emptyReduce) w₂) →
    ((∃ w₁, r = .error (.fault .emptyReduce) w₁) ↔ initial? = none ∧ vs = [])

theorem Folds.foldsElements {eng : Engine} {invoke : Invoke} {callback this : Script.Value}
    {w : World} {initial? : Option Script.Value} {vs : List (Value × Nat)}
    {cs : List (Call × Outcome Script.Value)} {r : Outcome Script.Value}
    (h : Folds eng invoke callback this w initial? vs cs r) :
    FoldsElements eng invoke callback this w initial? vs cs r where
  folds := h
  number _ _ hr := h.length_of_ok hr
  result _ _ hr _ _ hc := h.of_getLast? hr hc
  aborts _ _ _ _ hc := h.aborts hc
  complains hcalls hcross := by
    constructor
    · rintro ⟨w₁, hr⟩
      obtain ⟨c, w₂, hlast⟩ | ⟨p, hp, w₂, w₃, hv⟩ | ⟨hnone, hnil, -⟩ := h.of_error hr
      · exact absurd hlast (hcalls c w₂)
      · exact absurd hv (hcross p hp w₂ w₃)
      · exact ⟨hnone, hnil⟩
    · rintro ⟨rfl, rfl⟩
      cases h with
      | empty => exact ⟨w, rfl⟩

/-- A function of lists that folds, with a callback that leaves the list alone, folds the items
there are from the first to the last, or from the last to the first. It calls the callback with the
accumulator, what the script sees of the item, its index and the receiver of the function. The seed
is the second argument, which may be undefined, and without one what the first item in this order
is carried to the script as; then there is one call less, and none at all if there is but one item.
A list without items and without a seed is complained of, and a call that fails ends the fold with
its error. That the callback leaves the list alone is asked of its calls in worlds of a kind that it
does not leave. -/
theorem reduce_folds (eng : Engine) (invoke : Invoke) (steps : Nat) (target : Value)
    (this : Script.Value) (args : List Script.Value) {items : List Value} {w : World}
    (hlist : w.list? target = some items.toArray)
    (hcallback : (Arguments.get args 0).isFunction = true) {I : World → Prop}
    (hkeeps : LeavesList I invoke (Arguments.get args 0) target) (hw : I w) {f : ListFunction}
    {vs : List (Value × Nat)} (h : f.folded? items = some vs) :
    (f.run eng invoke steps target this args).Accounted invoke w fun ds r =>
      FoldsElements eng invoke (Arguments.get args 0) this w args[1]? vs (Deed.calls ds) r :=
  (accounted_folded steps hcallback hkeeps hw hlist h).mono fun _ _ hr => hr.foldsElements

/-- Callables that add up two integers. -/
def adding : Invoke := fun _ _ args =>
  match args with
  | .integer m :: .integer n :: _ => return .integer (m + n)
  | _ => return .undefined

/-- Three integers are added up in two calls, from the last to the first; with an initial value that
is undefined there is a third call. Without items there is nothing to start with. -/
theorem reduce_folds_adding :
    ((ListFunction.reduceRight).run (Engine.direct Config.standard) adding 0 onlyList .undefined
        [.function ⟨0⟩]).Accounted adding
      (World.ofItems [.integer 1, .integer 2, .integer 3])
      (fun ds r => (Deed.calls ds).length = 2 ∧ ∃ w, r = .ok (.integer 6) w) ∧
    ((ListFunction.reduce).run (Engine.direct Config.standard) adding 0 onlyList .undefined
        [.function ⟨0⟩, .undefined]).Accounted adding
      (World.ofItems [.integer 1, .integer 2, .integer 3])
      (fun ds r => (Deed.calls ds).length = 3 ∧ ∃ w, r = .ok .undefined w) ∧
    ((ListFunction.reduce).run (Engine.direct Config.standard) adding 0 onlyList .undefined
        [.function ⟨0⟩]).Accounted adding (World.ofItems [])
      (fun ds r => Folds (Engine.direct Config.standard) adding (.function ⟨0⟩) .undefined
        (World.ofItems []) none [] (Deed.calls ds) r ∧ ∃ w, r = .error (.fault .emptyReduce) w) ∧
    Fault.emptyReduce.text = "TypeError: Reduce of empty array with no initial value" := by
  have hkeeps : LeavesList (fun _ => True) adding (.function ⟨0⟩) onlyList := by
    refine .of_forall fun r _ this args => ?_
    unfold adding
    split <;> exact .pure _
  have hlist : (World.ofItems [.integer 1, .integer 2, .integer 3]).list? onlyList =
    some [.integer 1, .integer 2, .integer 3].toArray := rfl
  obtain ⟨ds, hds, hfold⟩ := reduce_folds (Engine.direct Config.standard) adding 0 onlyList
    .undefined [.function ⟨0⟩] hlist rfl hkeeps trivial
    (show ListFunction.reduceRight.folded? _ = _ from rfl)
  obtain ⟨ds', hds', hfold'⟩ := reduce_folds (Engine.direct Config.standard) adding 0 onlyList
    .undefined [.function ⟨0⟩, .undefined] hlist rfl hkeeps trivial
    (show ListFunction.reduce.folded? _ = _ from rfl)
  have hempty : (World.ofItems []).list? onlyList = some [].toArray := rfl
  obtain ⟨ds'', hds'', hfold''⟩ := reduce_folds (Engine.direct Config.standard) adding 0 onlyList
    .undefined [.function ⟨0⟩] hempty rfl hkeeps trivial
    (show ListFunction.reduce.folded? _ = _ from rfl)
  exact ⟨⟨ds, hds, hfold.number _ _ rfl, _, rfl⟩, ⟨ds', hds', hfold'.number _ _ rfl, _, rfl⟩,
    ⟨ds'', hds'', hfold''.folds, _, rfl⟩, rfl⟩

end Membrane
