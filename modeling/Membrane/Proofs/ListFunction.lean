import Membrane.Proofs.Pass

/-!
# The deeds of list functions

Each list function that takes a callback reads its arguments, walks and ends. The functions that
read the list on as they walk differ only in their scheme; those that settle at the start what they
go over are backward walks and folds.

## Main definitions

* `Prototype.ListFunction.scheme?`: the scheme of a function that reads on.
* `WalkDeeds`, `LastDeeds`, `WholeFoldDeeds`: the deeds of functions that read on, that look for
  an element from the end, and that fold.
* `seed?`: the accumulator a fold starts with.

## Main results

* `walkDeeds_run`: the functions that have a scheme follow it.
* `lastDeeds_last`, `wholeFoldDeeds_fold`, `accounted_setForEach`: the functions that do not read
  on.
-/

namespace Membrane

open Host (Value)
open Prototype (ListFunction)

variable {eng : Engine} {invoke : Invoke} {target : Value} {this : Script.Value}
  {args : List Script.Value} {w : World} {σ β : Type}

/-! ### Arguments -/

/-- The walk that arguments ask for whose first is callable. -/
def walkOf (this : Script.Value) (args : List Script.Value) : Walk :=
  ⟨Arguments.get args 0, Arguments.receiver args 1, this⟩

theorem callback_eq {i : Nat} {callback : Script.Value} {w' : World}
    (h : Arguments.callback args i w = .ok callback w') : callback = Arguments.get args i := by
  unfold Arguments.callback at h
  split at h
  · cases h
    rfl
  · cases h

theorem callback_of_isFunction {i : Nat} (h : (Arguments.get args i).isFunction = true) :
    Arguments.callback args i w = .ok (Arguments.get args i) w := by
  unfold Arguments.callback
  rw [if_pos h]
  rfl

theorem callback_eq_error {i : Nat} {e : Halt} {w' : World}
    (h : Arguments.callback args i w = .error e w') :
    (Arguments.get args i).isFunction = false := by
  cases hcallback : (Arguments.get args i).isFunction with
  | false => rfl
  | true => cases h.symm.trans (callback_of_isFunction hcallback)

/-- A function that takes a callback refuses another first argument before it does anything. -/
theorem accounted_callback {body : Script.Value → Run β} {Q : List Deed → Outcome β → Prop}
    (hrefused : ∀ e, (Arguments.get args 0).isFunction = false → Q [] (.error e w))
    (hbody : (body (Arguments.get args 0)).Accounted invoke w Q) :
    (Arguments.callback args 0 >>= body).Accounted invoke w Q := by
  refine .bind_looks (Arguments.looks_callback args 0) (fun callback h => ?_)
    fun e h => hrefused e (callback_eq_error h)
  rw [callback_eq h]
  exact hbody

theorem accounted_ofArguments {body : Walk → Run β} {Q : List Deed → Outcome β → Prop}
    (hrefused : ∀ e, (Arguments.get args 0).isFunction = false → Q [] (.error e w))
    (hbody : (body (walkOf this args)).Accounted invoke w Q) :
    (Walk.ofArguments this args >>= body).Accounted invoke w Q := by
  unfold Walk.ofArguments
  rw [bind_assoc]
  refine accounted_callback hrefused ?_
  rw [pure_bind]
  exact hbody

/-! ### Functions that read on -/

/-- What a list function that reads the list on does with what the callback returns. -/
def Prototype.ListFunction.scheme? : ListFunction → Option Scheme
  | .every => some ⟨false, fun v => !v.truthy⟩
  | .someOf | .find | .findIndex => some ⟨false, Script.Value.truthy⟩
  | .filter | .forEach => some ⟨false, fun _ => false⟩
  | .map => some ⟨true, fun _ => false⟩
  | _ => none

/-- The deeds of a list function that reads on, started in a world. -/
inductive WalkDeeds (scheme : Scheme) (steps : Nat) (target : Value) (this : Script.Value)
    (args : List Script.Value) (w : World) : List Deed → Outcome Script.Value → Prop
  | refused {e : Halt} {w' : World} (hcallback : (Arguments.get args 0).isFunction = false) :
      WalkDeeds scheme steps target this args w [] (.error e w')
  | walked {ds : List Deed} {r : Outcome Script.Value}
      (h : ForwardDeeds (walkOf this args) scheme target steps 0 [] w ds r) :
      WalkDeeds scheme steps target this args w ds r

/-- What is held at the end does not matter to how a walk ends. -/
theorem Scheme.Finishes.holdOnly {scheme : Scheme} {kept : List Script.Value}
    {r : Outcome Script.Value} (h : scheme.Finishes kept r) (held : List Node) :
    scheme.Finishes kept (Run.holdOnly held r) := by
  cases r with
  | ok v w => exact ⟨nofun, fun hkeeps => by
      obtain ⟨a, w', hr, ha⟩ := h.handsOver hkeeps
      cases hr
      exact ⟨a, _, rfl, ha⟩⟩
  | error e w =>
    refine ⟨?_, fun hkeeps => ?_⟩
    · rintro w' ⟨⟩
      exact h.ends w rfl
    · obtain ⟨a, w', hr, -⟩ := h.handsOver hkeeps
      cases hr

theorem ForwardDeeds.holdOnly {walk : Walk} {scheme : Scheme} {n i : Nat}
    {kept : List Script.Value} {ds : List Deed} {r : Outcome Script.Value}
    (h : ForwardDeeds walk scheme target n i kept w ds r) (held : List Node) :
    ForwardDeeds walk scheme target n i kept w ds (Run.holdOnly held r) := by
  induction h with
  | cutOff => exact .cutOff
  | finished hi hr => exact .finished hi (hr.holdOnly held)
  | refused => exact .refused
  | lost hlist hw => exact .lost hlist hw
  | failed hi => exact .failed hi
  | @decided _ _ _ _ _ _ _ r hi hkeeps hv hr =>
    refine .decided hi hkeeps hv fun w' h => ?_
    cases r with
    | ok v w => cases h
    | error e w =>
      cases h
      exact hr w rfl
  | next hi hv hw _ ih => exact .next hi hv hw ih

theorem WalkDeeds.holdOnly {scheme : Scheme} {steps : Nat} {ds : List Deed}
    {r : Outcome Script.Value} (h : WalkDeeds scheme steps target this args w ds r)
    (held : List Node) : WalkDeeds scheme steps target this args w ds (Run.holdOnly held r) := by
  cases h with
  | refused hcallback => exact .refused hcallback
  | walked h => exact .walked (h.holdOnly held)

section ReadOn

variable {steps : Nat}

/-- A function that asks the callback for a condition keeps nothing of what it returns. -/
theorem walkDeeds_condition (ends : Bool → Bool) {s : σ}
    {branch : σ → Value → Nat → Bool → Run (Step σ Script.Value)} {finish : σ → Run Script.Value}
    (hnext : ∀ s v i b, ends b = false → GoesOn (branch s v i b))
    (hdone : ∀ s v i b, ends b = true → Stops (branch s v i b))
    (hfinish : ∀ s, (finish s).Quiet) (w : World) :
    (do
      let walk ← Walk.ofArguments this args
      forward target (fun s v i => walk.test eng invoke v i >>= branch s v i) finish nothing steps
        0 s : Run Script.Value).Accounted invoke w
      (WalkDeeds ⟨false, fun v => ends v.truthy⟩ steps target this args w) := by
  refine accounted_ofArguments (fun _ => .refused) ?_
  exact (forwardDeeds_forward (fun _ => [])
    (fun s v i w => stepDeeds_test (hnext s v i) (hdone s v i) s v i w) givesUp_nothing
    (fun _ _ => rfl) hfinish (fun s w => ⟨(hfinish s).ends w, nofun⟩) steps 0 s w).mono
    fun ds r h => .walked h

theorem walkDeeds_every : (OnList.every eng invoke steps target this args).Accounted invoke w
    (WalkDeeds ⟨false, fun v => !v.truthy⟩ steps target this args w) := by
  refine walkDeeds_condition (fun b => !b) ?_ ?_ (fun _ => .pure _) w
  · rintro ⟨⟩ _ _ (_ | _) h
    · cases h
    · exact .pure ()
  · rintro ⟨⟩ _ _ (_ | _) h
    · exact .pure _
    · cases h

theorem walkDeeds_someOf : (OnList.someOf eng invoke steps target this args).Accounted invoke w
    (WalkDeeds ⟨false, Script.Value.truthy⟩ steps target this args w) := by
  refine walkDeeds_condition id ?_ ?_ (fun _ => .pure _) w
  · rintro ⟨⟩ _ _ (_ | _) h
    · exact .pure ()
    · cases h
  · rintro ⟨⟩ _ _ (_ | _) h
    · cases h
    · exact .pure _

theorem walkDeeds_find : (OnList.find eng invoke steps target this args).Accounted invoke w
    (WalkDeeds ⟨false, Script.Value.truthy⟩ steps target this args w) := by
  refine walkDeeds_condition id ?_ ?_ (fun _ => .pure _) w
  · rintro ⟨⟩ _ _ (_ | _) h
    · exact .pure ()
    · cases h
  · rintro ⟨⟩ v _ (_ | _) h
    · cases h
    · exact .bind (eng.quiet_toScript v)

theorem walkDeeds_findIndex :
    (OnList.findIndex eng invoke steps target this args).Accounted invoke w
      (WalkDeeds ⟨false, Script.Value.truthy⟩ steps target this args w) := by
  refine walkDeeds_condition id ?_ ?_ (fun _ => .pure _) w
  · rintro ⟨⟩ _ _ (_ | _) h
    · exact .pure ()
    · cases h
  · rintro ⟨⟩ _ _ (_ | _) h
    · cases h
    · exact .pure _

theorem walkDeeds_filter : (OnList.filter eng invoke steps target this args).Accounted invoke w
    (WalkDeeds ⟨false, fun _ => false⟩ steps target this args w) := by
  refine .scope (.mono (walkDeeds_condition (fun _ => false) ?_ ?_
    (fun _ => eng.quiet_toScriptArray _) w) fun ds r h => h.holdOnly _)
  · rintro kept v _ (_ | _) _
    · exact .pure kept
    · exact .bind (Run.quiet_holdHost v) fun w => ⟨_, rfl⟩
  · rintro _ _ _ _ ⟨⟩

theorem walkDeeds_forEach : (OnList.forEach eng invoke steps target this args).Accounted invoke w
    (WalkDeeds ⟨false, fun _ => false⟩ steps target this args w) := by
  refine accounted_ofArguments (fun _ => .refused) ?_
  refine (forwardDeeds_forward (fun _ => []) ?_ givesUp_nothing (fun _ _ => rfl)
    (fun _ => .pure _) (fun _ w => ⟨(Run.Quiet.pure _).ends w, fun h => by cases h⟩)
    steps 0 () w).mono
    fun ds r h => .walked h
  rintro ⟨⟩ v i w
  refine .bind (Walk.callDeeds_call v i w) ?_ ?_
  · rintro ds a w₁ ⟨⟩
    exact .bind_release fun w₂ hw => .pure (.next rfl hw rfl)
  · rintro ds e w₁ (_ | _)
    · exact .refused
    · exact .failed

/-- Releasing values, first to last. -/
theorem accounted_releaseAll :
    ∀ (vs : List Script.Value) (w : World),
      (Run.releaseAll vs).Accounted invoke w fun ds _ => ds = vs.map .release
  | [], w => .pure rfl
  | v :: vs, w => .bind_release fun w₁ _ => (accounted_releaseAll vs w₁).mono
      fun ds _ h => by rw [h, List.map_cons]

theorem walkDeeds_map : (OnList.map eng invoke steps target this args).Accounted invoke w
    (WalkDeeds ⟨true, fun _ => false⟩ steps target this args w) := by
  refine .scope (.mono (P := WalkDeeds ⟨true, fun _ => false⟩ steps target this args w) ?_
    fun ds r h => h.holdOnly _)
  refine accounted_ofArguments (fun _ => .refused) ?_
  refine (forwardDeeds_forward List.reverse ?_
    (fun results w => accounted_releaseAll results.reverse w) (fun h => by cases h)
    (fun _ => Run.quiet_newScriptArray _)
    (fun results w => ⟨(Run.quiet_newScriptArray _).ends w,
      fun _ => ⟨_, _, rfl, Store.get?_alloc_next _ _⟩⟩) steps 0 [] w).mono
    fun ds r h => .walked h
  rintro results v i w
  refine .bind (Walk.callDeeds_call v i w) ?_ ?_
  · rintro ds result w₁ ⟨⟩
    refine .bind_quiet (Run.quiet_holdScript result) (fun _ w₂ hw _ => .pure ?_)
      (fun _ _ _ h => by cases h)
    exact .next rfl hw.objects List.reverse_cons
  · rintro ds e w₁ (_ | _)
    · exact .refused
    · exact .failed

/-- The list functions that read the list on as they walk follow their schemes. -/
theorem walkDeeds_run {f : ListFunction} {scheme : Scheme} (h : f.scheme? = some scheme) :
    (f.run eng invoke steps target this args).Accounted invoke w
      (WalkDeeds scheme steps target this args w) := by
  cases f with
  | every => cases h; exact walkDeeds_every
  | someOf => cases h; exact walkDeeds_someOf
  | find => cases h; exact walkDeeds_find
  | findIndex => cases h; exact walkDeeds_findIndex
  | filter => cases h; exact walkDeeds_filter
  | forEach => cases h; exact walkDeeds_forEach
  | map => cases h; exact walkDeeds_map
  | _ => cases h

end ReadOn

/-! ### Functions that settle at the start what they go over -/

/-- The deeds of a list function that walks backward, started in a world. -/
inductive LastDeeds (target : Value) (this : Script.Value) (args : List Script.Value) (w : World) :
    List Deed → Outcome Script.Value → Prop
  | refused {e : Halt} {w' : World} (hcallback : (Arguments.get args 0).isFunction = false) :
      LastDeeds target this args w [] (.error e w')
  | lost {e : Halt} (hlist : w.list? target = none) : LastDeeds target this args w [] (.error e w)
  | walked {ds : List Deed} {r : Outcome Script.Value} {r' : Outcome (Option Script.Value)}
      (h : BackwardDeeds (walkOf this args) target (w.listLength target) ds r')
      (hr : ∀ w', r = .error .exhausted w' → r' = .error .exhausted w') :
      LastDeeds target this args w ds r

theorem listItems_eq_error {e : Halt} {w' : World} (h : listItems target w = .error e w') :
    w.list? target = none := by
  rw [listItems_apply] at h
  cases hlist : w.list? target with
  | none => rfl
  | some items =>
    rw [hlist] at h
    cases h

theorem listItems_eq_ok {items : Array Value} {w' : World} (h : listItems target w = .ok items w') :
    items.size = w.listLength target := by
  rw [listItems_apply] at h
  unfold World.listLength
  cases hlist : w.list? target with
  | none =>
    rw [hlist] at h
    cases h
  | some items' =>
    rw [hlist] at h
    cases h
    rfl

/-- A function that looks from the end for an element of which the callback holds. -/
theorem lastDeeds_last (found : Value → Nat → Run Script.Value)
    (finish : Option Script.Value → Script.Value) (hquiet : ∀ v i, (found v i).Quiet) (w : World) :
    (do
      let walk ← Walk.ofArguments this args
      let length := (← listItems target).size
      let result ← backward target
        (fun v i => do
          if ← walk.test eng invoke v i then return some (← found v i) else return none)
        length
      return finish result : Run Script.Value).Accounted invoke w
      (LastDeeds target this args w) := by
  refine accounted_ofArguments (fun _ => .refused) ?_
  refine .bind_looks (looks_listItems target) (fun items hitems => ?_)
    fun e h => .lost (listItems_eq_error h)
  have hlength : items.size = w.listLength target := listItems_eq_ok hitems
  refine .bind (backwardDeeds_backward (fun v i w => pickDeeds_test (hquiet v i) v i w) _ w) ?_ ?_
  · intro ds o w₁ h
    rw [hlength] at h
    refine .pure ?_
    rw [List.append_nil]
    exact .walked h nofun
  · intro ds e w₁ h
    rw [hlength] at h
    refine .walked h ?_
    rintro _ ⟨⟩
    rfl

theorem lastDeeds_findLast : (OnList.findLast eng invoke target this args).Accounted invoke w
    (LastDeeds target this args w) :=
  lastDeeds_last (fun v _ => eng.toScript v) _ (fun v _ => eng.quiet_toScript v) w

theorem lastDeeds_findLastIndex :
    (OnList.findLastIndex eng invoke target this args).Accounted invoke w
      (LastDeeds target this args w) :=
  lastDeeds_last (fun _ i => pure (Script.Value.ofIndex i)) _ (fun _ _ => .pure _) w

/-- The accumulator that a fold starts with in a world, if it comes to fold: the initial value or,
without one, the first of at least two elements. -/
def seed? (eng : Engine) (target : Value) (args : List Script.Value) (order : Nat → List Nat)
    (w : World) : Option Script.Value :=
  if (Arguments.get args 0).isFunction then
    match w.list? target, args[1]? with
    | none, _ => none
    | some _, some initial => some initial
    | some items, none =>
      if items.size < 2 then none
      else
        match (order items.size).head?.bind (items[·]?) with
        | none => none
        | some v =>
          match eng.toScript v w with
          | .ok first _ => some first
          | .error _ _ => none
  else none

/-- The deeds of a fold, started in a world: none without an accumulator to start with, and
otherwise those of a pass over some of the indices. -/
inductive WholeFoldDeeds (eng : Engine) (target : Value) (this : Script.Value)
    (args : List Script.Value) (order : Nat → List Nat) (w : World) :
    List Deed → Outcome Script.Value → Prop
  | unseeded {r : Outcome Script.Value} (hseed : seed? eng target args order w = none)
      (hr : (∀ w', r ≠ .error .exhausted w') ∨ (Arguments.get args 0).isFunction = false ∨
        w.list? target = none ∧ (Outcome.world r) = w) :
      WholeFoldDeeds eng target this args order w [] r
  | folded {seed : Script.Value} {indices : List Nat} {ds : List Deed} {r : Outcome Script.Value}
      (hseed : seed? eng target args order w = some seed)
      (hindices : indices.Sublist (order (w.listLength target)))
      (h : FoldDeeds target (Arguments.get args 0) this indices seed ds r) :
      WholeFoldDeeds eng target this args order w ds r

/-- A fold whose first element is its seed, if there are more. -/
private theorem wholeFoldDeeds_first {order : Nat → List Nat} {items : Array Value} {v : Value}
    {i : Nat} {rest : List Nat} (hcallback : (Arguments.get args 0).isFunction = true)
    (hlist : w.list? target = some items) (hinitial : args[1]? = none)
    (horder : order items.size = i :: rest) (hfirst : items[i]? = some v) :
    (do
      let first ← eng.toScript v
      if items.size = 1 then return first
      else OnList.foldIndices eng invoke target this (Arguments.get args 0) rest first :
      Run Script.Value).Accounted invoke w (WholeFoldDeeds eng target this args order w) := by
  have hpos : 0 < items.size := by
    have := (Array.getElem?_eq_some_iff.1 hfirst).1
    omega
  refine .bind_quiet (eng.quiet_toScript v) (fun first w₁ _ hv => ?_) fun f w₁ _ hv => ?_
  · by_cases hone : items.size = 1
    · rw [if_pos hone]
      exact .pure (.unseeded (by simp [seed?, hcallback, hlist, hinitial, hone]) (.inl nofun))
    · rw [if_neg hone]
      have hmany : ¬ items.size < 2 := by omega
      refine (foldDeeds_foldIndices rest first w₁).mono fun ds r h => .folded ?_ ?_ h
      · simp [seed?, hcallback, hlist, hinitial, horder, hfirst, hmany, hv]
      · have hlength : w.listLength target = items.size := by simp [World.listLength, hlist]
        rw [hlength, horder]
        exact List.sublist_cons_self i rest
  · exact .unseeded (by simp [seed?, hcallback, hlist, hinitial, horder, hfirst, hv]) (.inl nofun)

/-- The computation up to the seed is followed in the order in which the seed is sought, so that
each way to have none is met where the seed is none. -/
theorem wholeFoldDeeds_fold (order : Nat → List Nat) :
    (OnList.fold eng invoke target this args order).Accounted invoke w
      (WholeFoldDeeds eng target this args order w) := by
  unfold OnList.fold
  cases hcallback : (Arguments.get args 0).isFunction with
  | false =>
    have hseed : seed? eng target args order w = none := by simp [seed?, hcallback]
    refine .bind_looks (Arguments.looks_callback args 0) (fun callback h => ?_)
      fun e _ => .unseeded hseed (.inr (.inl hcallback))
    unfold Arguments.callback at h
    rw [if_neg (by simp [hcallback])] at h
    cases h
  | true =>
    refine .bind_of_ok (callback_of_isFunction hcallback) ?_
    cases hlist : w.list? target with
    | none =>
      refine .bind_looks (looks_listItems target) (fun items h => ?_) fun e _ =>
        .unseeded (by simp [seed?, hcallback, hlist]) (.inr (.inr ⟨hlist, rfl⟩))
      rw [listItems_apply, hlist] at h
      cases h
    | some items =>
      refine .bind_of_ok (by rw [listItems_apply, hlist]) ?_
      cases hinitial : args[1]? with
      | some initial =>
        have hseed : seed? eng target args order w = some initial := by
          simp [seed?, hcallback, hlist, hinitial]
        have hlength : w.listLength target = items.size := by simp [World.listLength, hlist]
        exact (foldDeeds_foldIndices _ _ w).mono
          fun ds r h => .folded hseed (hlength ▸ List.Sublist.refl _) h
      | none =>
        dsimp only
        cases horder : order items.size with
        | nil =>
          refine .of_quiet (.raise _) (.unseeded ?_ (.inl nofun))
          simp [seed?, hcallback, hlist, hinitial, horder]
        | cons i rest =>
          refine .bind_of_ok (a := items[i]?) (by rw [elementAt_apply, hlist]) ?_
          cases hfirst : items[i]? with
          | none =>
            refine .of_quiet (.raise _) (.unseeded ?_ (.inl nofun))
            simp [seed?, hcallback, hlist, hinitial, horder, hfirst]
          | some v => exact wholeFoldDeeds_first hcallback hlist hinitial horder hfirst

/-- The deeds of the visit of a set: those of a pass over the members it has at the start. -/
theorem accounted_setForEach :
    (OnSet.forEach eng invoke target this args).Accounted invoke w fun ds _ =>
      ds = [] ∨ ∃ members r', w.set? target = some members ∧
        VisitDeeds (Arguments.get args 0) (Arguments.receiver args 1) this members ds r' := by
  refine .scope (accounted_callback (fun _ _ => .inl rfl) ?_)
  refine .bind_looks (looks_setMembers target) (fun members h => ?_) fun e _ => .inl rfl
  have hmembers : w.set? target = some members := setMembers_eq_ok h
  refine .bind_quiet (Run.quiet_hold _) (fun _ w₁ _ _ => ?_) fun f w₁ _ _ => .inl rfl
  refine .bind (visitDeeds_visit members w₁) ?_ ?_
  · intro ds _ w₂ h
    refine .pure ?_
    rw [List.append_nil]
    exact .inr ⟨members, _, hmembers, h⟩
  · intro ds e w₂ h
    exact .inr ⟨members, _, hmembers, h⟩

end Membrane
