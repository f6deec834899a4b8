import Membrane.Proofs.ListFunction

/-!
# How often a callback is called

A function that settles at the start what it goes over calls its callback at most once for each
element the list had then, and ends if the callback does. A function that reads the list on does so
only if the callback does not let the list outgrow the walk: a list that still has more elements
when as many calls have returned is walked on, and a callback that always appends is never done.

## Main definitions

* `Passes`: calls at given indices, in their order.
* `Outgrows`: that a list has outgrown the walk after some number of calls.
* `ReadsOn`: how the calls of a walk follow the list as it is changed.

## Main results

* `passes_run`, `readsOn_run`: the calls of the two kinds of functions.
* `calls_le_length_or_outgrows`: a callback is called more often than the list had elements just if
  the list outgrows the walk.
-/

namespace Membrane

open Host (Value)
open Prototype (ListFunction)

variable {eng : Engine} {invoke : Invoke} {target : Value} {this : Script.Value}
  {args : List Script.Value} {w : World} {β : Type}

/-! ### Functions that settle the length -/

/-- The index a call was made at: the last argument but one. -/
def Call.index? (c : Call) : Option Script.Value := c.args.reverse[1]?

/-- Calls of a callback at some of the given indices of a target, in their order and each at most
once. Only a call can be what does not end. -/
structure Passes (target : Value) (callback : Script.Value) (indices : List Nat)
    (cs : List (Call × Outcome Script.Value)) (r : Outcome β) : Prop where
  /-- The indices of the calls are among those given, in their order. -/
  inOrder : (cs.map fun c => c.1.index?).Sublist (indices.map fun i => some (.ofIndex i))
  /-- What is cut off is cut off in its last call, or where a target that is no list or a callback
  that is not callable has no text for the fault. -/
  ends : ∀ w, r = .error .exhausted w →
    (∃ c w', cs.getLast? = some (c, .error .exhausted w')) ∨ w.list? target = none ∨
      callback.isFunction = false

/-- What is last after a call is last with it. -/
private theorem getLast?_cons_of_some {α : Type} {a b : α} {l : List α}
    (h : l.getLast? = some b) : (a :: l).getLast? = some b := by
  rw [List.getLast?_cons, h]
  rfl

namespace Passes

variable {callback : Script.Value} {i : Nat} {indices : List Nat}
  {cs : List (Call × Outcome Script.Value)} {c : Call}
  {o : Outcome Script.Value} {r : Outcome β}

theorem nil (hr : ∀ w, r = .error .exhausted w →
    w.list? target = none ∨ callback.isFunction = false) :
    Passes target callback indices [] r :=
  ⟨List.nil_sublist _, fun w h => .inr (hr w h)⟩

/-- An index without a call. -/
theorem skip (h : Passes target callback indices cs r) :
    Passes target callback (i :: indices) cs r :=
  ⟨h.inOrder.cons _, h.ends⟩

/-- A last call, at the first of the indices. -/
theorem last (hc : c.index? = some (.ofIndex i))
    (hr : ∀ w, r = .error .exhausted w → ∃ w', o = .error .exhausted w') :
    Passes target callback (i :: indices) [(c, o)] r := by
  refine ⟨?_, fun w h => ?_⟩
  · rw [List.map_singleton, hc]
    exact (List.nil_sublist _).cons_cons _
  · obtain ⟨w', rfl⟩ := hr w h
    exact .inl ⟨c, w', rfl⟩

/-- A call at the first of the indices, before others. -/
theorem cons (hc : c.index? = some (.ofIndex i)) (h : Passes target callback indices cs r) :
    Passes target callback (i :: indices) ((c, o) :: cs) r := by
  refine ⟨?_, fun w hr => ?_⟩
  · rw [List.map_cons, hc]
    exact h.inOrder.cons_cons _
  · exact (h.ends w hr).imp_left fun ⟨c', w', hlast⟩ => ⟨c', w', getLast?_cons_of_some hlast⟩

theorem of_sublist {indices' : List Nat} (h : Passes target callback indices cs r)
    (hindices : indices.Sublist indices') : Passes target callback indices' cs r :=
  ⟨h.inOrder.trans (hindices.map _), h.ends⟩

/-- There are no more calls than indices. -/
theorem calls_le (h : Passes target callback indices cs r) : cs.length ≤ indices.length := by
  have := h.inOrder.length_le
  rwa [List.length_map, List.length_map] at this

end Passes

theorem BackwardDeeds.passes {walk : Walk} {i : Nat} {ds : List Deed} {r : Outcome (Option β)}
    (h : BackwardDeeds walk target i ds r) :
    Passes target walk.callback (List.range i).reverse (Deed.calls ds) r := by
  have hrange (i : Nat) : (List.range (i + 1)).reverse = i :: (List.range i).reverse := by
    rw [List.range_succ, List.reverse_append]
    rfl
  induction h with
  | finished => exact .nil nofun
  | lost hlist =>
    refine .nil ?_
    rintro _ ⟨⟩
    exact .inl hlist
  | missing _ ih =>
    rw [hrange]
    exact ih.skip
  | ended h hr =>
    rw [hrange]
    cases h with
    | refused => exact .nil nofun
    | failed =>
      refine .last rfl ?_
      rintro _ ⟨⟩
      exact ⟨_, rfl⟩
    | passed => exact absurd rfl (hr _)
    | picked hr' _ => exact .last rfl fun w h => absurd h (hr' w)
  | next h _ ih =>
    rw [hrange]
    cases h with
    | passed => exact .cons rfl ih
    | picked _ hsome => exact absurd rfl (hsome _)

theorem FoldDeeds.passes {callback this seed : Script.Value} {indices : List Nat}
    {ds : List Deed} {r : Outcome Script.Value}
    (h : FoldDeeds target callback this indices seed ds r) :
    Passes target callback indices (Deed.calls ds) r := by
  induction h with
  | finished => exact .nil nofun
  | missing _ ih => exact ih.skip
  | lost hlist =>
    refine .nil ?_
    rintro _ ⟨⟩
    exact .inl hlist
  | refused => exact .nil nofun
  | failed =>
    refine .last rfl ?_
    rintro _ ⟨⟩
    exact ⟨_, rfl⟩
  | next _ ih => exact .cons rfl ih

/-- The order in which a list function that settles the length goes over that many elements. -/
def Prototype.ListFunction.order? : ListFunction → Option (Nat → List Nat)
  | .reduce => some List.range
  | .findLast | .findLastIndex | .reduceRight => some fun length => (List.range length).reverse
  | _ => none

theorem length_order {f : ListFunction} {order : Nat → List Nat} (h : f.order? = some order)
    (length : Nat) : (order length).length = length := by
  cases f <;> cases h <;> simp

theorem LastDeeds.passes {ds : List Deed} {r : Outcome Script.Value}
    (h : LastDeeds target this args w ds r) :
    Passes target (Arguments.get args 0) (List.range (w.listLength target)).reverse
      (Deed.calls ds) r := by
  cases h with
  | refused hcallback => exact .nil fun _ _ => .inr hcallback
  | lost hlist =>
    refine .nil ?_
    rintro _ ⟨⟩
    exact .inl hlist
  | walked h hr =>
    have := h.passes
    exact ⟨this.inOrder, fun w' h' => this.ends w' (hr w' h')⟩

theorem WholeFoldDeeds.passes {order : Nat → List Nat} {ds : List Deed}
    {r : Outcome Script.Value} (h : WholeFoldDeeds eng target this args order w ds r) :
    Passes target (Arguments.get args 0) (order (w.listLength target)) (Deed.calls ds) r := by
  cases h with
  | unseeded _ hr =>
    refine .nil ?_
    rintro w' rfl
    rcases hr with hr | hcallback | ⟨hlist, rfl⟩
    · exact absurd rfl (hr w')
    · exact .inr hcallback
    · exact .inl hlist
  | folded _ hindices h => exact h.passes.of_sublist hindices

/-- The list functions that settle the length pass over the indices there were at the start. -/
theorem passes_run {f : ListFunction} {order : Nat → List Nat} (steps : Nat)
    (h : f.order? = some order) :
    (f.run eng invoke steps target this args).Accounted invoke w fun ds r =>
      Passes target (Arguments.get args 0) (order (w.listLength target)) (Deed.calls ds) r := by
  cases f with
  | findLast => cases h; exact lastDeeds_findLast.mono fun ds r h => h.passes
  | findLastIndex => cases h; exact lastDeeds_findLastIndex.mono fun ds r h => h.passes
  | reduce =>
    cases h
    exact (wholeFoldDeeds_fold List.range).mono fun ds r h => h.passes
  | reduceRight =>
    cases h
    exact (wholeFoldDeeds_fold fun length => (List.range length).reverse).mono
      fun ds r h => h.passes
  | _ => cases h

/-! ### Functions that read on -/

/-- When the `n`-th of some calls has returned, the walk is undecided and the list holds more than
`n` elements. -/
def Outgrows (scheme : Scheme) (target : Value) (cs : List (Call × Outcome Script.Value))
    (n : Nat) : Prop :=
  ∃ k c v w, n = k + 1 ∧ cs[k]? = some (c, .ok v w) ∧ scheme.decides v = false ∧
    n < w.listLength target

/-- How the calls of a walk from an index on follow the list, with the steps left, the world the
walk has reached and its outcome. -/
structure ReadsOn (walk : Walk) (scheme : Scheme) (target : Value) (steps i : Nat) (w : World)
    (cs : List (Call × Outcome Script.Value)) (r : Outcome Script.Value) : Prop where
  /-- The calls are made at one index after the other. -/
  visits : ∀ k c, cs[k]? = some c → ∃ element, c.1 = walk.callOn element (i + k)
  /-- The first call is made only if the index holds an element. -/
  first : 0 < cs.length → i < w.listLength target
  /-- Where the index holds an element, the first call of a callable is made, unless the walk fails
  at that or has no steps. -/
  starts : walk.callback.isFunction = true → i < w.listLength target →
    0 < cs.length ∨ steps = 0 ∨ ∃ f w', r = .error (.fault f) w'
  /-- Each further call is made only if the list has more elements when the one before returns. -/
  next : ∀ k, k + 1 < cs.length → ∃ c v w', cs[k]? = some (c, .ok v w') ∧
    scheme.decides v = false ∧ i + k + 1 < w'.listLength target
  /-- Where the list has more elements when a call of a callable returns, the next call is made,
  unless the walk fails at that or its steps are used up. -/
  goesOn : walk.callback.isFunction = true → ∀ k c v w', cs[k]? = some (c, .ok v w') →
    scheme.decides v = false → i + k + 1 < w'.listLength target →
    k + 1 < cs.length ∨ k + 1 = steps ∨ ∃ f w'', r = .error (.fault f) w''
  /-- What is cut off is cut off in its last call or after all its steps, or where a target that is
  no list or a callback that is not callable has no text for the fault. -/
  ends : ∀ w', r = .error .exhausted w' →
    (∃ c w'', cs.getLast? = some (c, .error .exhausted w'')) ∨ cs.length = steps ∨
      w'.list? target = none ∨ walk.callback.isFunction = false

namespace ReadsOn

variable {walk : Walk} {scheme : Scheme} {steps i : Nat} {r : Outcome Script.Value}

/-- A walk without calls that is cut off only if it has no steps left or nothing to walk over or
to call. -/
theorem of_nil
    (hstarts : walk.callback.isFunction = true → i < w.listLength target →
      steps = 0 ∨ ∃ f w', r = .error (.fault f) w')
    (hends : ∀ w', r = .error .exhausted w' →
      steps = 0 ∨ w'.list? target = none ∨ walk.callback.isFunction = false) :
    ReadsOn walk scheme target steps i w [] r where
  visits k c h := absurd h (by simp)
  first h := absurd h (by simp)
  starts hcallable h := .inr (hstarts hcallable h)
  next k h := absurd h (by simp)
  goesOn _ k c v w' h := absurd h (by simp)
  ends w' h := .inr ((hends w' h).imp_left Eq.symm)

/-- A walk whose first call is its last. -/
theorem of_single {element : Script.Value} {o : Outcome Script.Value}
    (hi : i < w.listLength target) (ho : ∀ v w', o = .ok v w' → scheme.decides v = true)
    (hends : ∀ w', r = .error .exhausted w' → ∃ w'', o = .error .exhausted w'') :
    ReadsOn walk scheme target steps i w [(walk.callOn element i, o)] r := by
  refine ⟨?_, fun _ => hi, fun _ _ => .inl (Nat.succ_pos _), fun k hk => absurd hk (by simp), ?_,
    fun w' h => ?_⟩
  · rintro (_ | k) c hc
    · cases hc
      exact ⟨element, rfl⟩
    · cases hc
  · rintro - (_ | k) c v w' hc hv _
    · cases hc
      simp [ho v w' rfl] at hv
    · cases hc
  · obtain ⟨w'', rfl⟩ := hends w' h
    exact .inl ⟨_, w'', rfl⟩

/-- A walk that goes on after its first call. -/
theorem cons {element v : Script.Value} {w₁ w₂ : World}
    {cs : List (Call × Outcome Script.Value)} (hi : i < w.listLength target)
    (hv : scheme.decides v = false) (hw : w₂.listLength target = w₁.listLength target)
    (h : ReadsOn walk scheme target steps (i + 1) w₂ cs r) :
    ReadsOn walk scheme target (steps + 1) i w ((walk.callOn element i, .ok v w₁) :: cs) r := by
  refine ⟨?_, fun _ => hi, fun _ _ => .inl (Nat.succ_pos _), ?_, ?_, fun w' hr => ?_⟩
  · rintro (_ | k) c hc
    · cases hc
      exact ⟨element, rfl⟩
    · obtain ⟨e, he⟩ := h.visits k c hc
      exact ⟨e, by rw [he, Nat.add_right_comm, Nat.add_assoc]⟩
  · rintro (_ | k) hk
    · refine ⟨_, v, w₁, rfl, hv, ?_⟩
      rw [← hw]
      exact h.first (by simpa using hk)
    · obtain ⟨c, v', w', hc, hv', hw'⟩ := h.next k (by simpa using hk)
      exact ⟨c, v', w', hc, hv', by omega⟩
  · rintro hcallable (_ | k) c v' w' hc hv' hlt
    · cases hc
      rcases h.starts hcallable (by rw [hw]; exact hlt) with h | h | h
      · exact .inl (by simpa using h)
      · exact .inr (.inl (by rw [h]))
      · exact .inr (.inr h)
    · rcases h.goesOn hcallable k c v' w' hc hv' (by omega) with h | h | h
      · exact .inl (by simpa using h)
      · exact .inr (.inl (by rw [h]))
      · exact .inr (.inr h)
  · rcases h.ends w' hr with ⟨c, w'', hlast⟩ | h | h
    · exact .inl ⟨c, w'', getLast?_cons_of_some hlast⟩
    · exact .inr (.inl (by rw [List.length_cons, h]))
    · exact .inr (.inr h)

end ReadsOn

@[simp] theorem Scheme.calls_settle (scheme : Scheme) (v : Script.Value) :
    Deed.calls (scheme.settle v) = [] := by
  unfold Scheme.settle
  split <;> rfl

theorem ForwardDeeds.readsOn {walk : Walk} {scheme : Scheme} {n i : Nat}
    {kept : List Script.Value} {ds : List Deed} {r : Outcome Script.Value}
    (h : ForwardDeeds walk scheme target n i kept w ds r) :
    ReadsOn walk scheme target n i w (Deed.calls ds) r := by
  induction h with
  | cutOff => exact .of_nil (fun _ _ => .inl rfl) fun _ _ => .inl rfl
  | finished hi hr =>
    exact .of_nil (fun _ hi' => absurd hi' (Nat.not_lt.2 hi)) fun w' h => absurd h (hr.ends w')
  | refused =>
    rw [Deed.calls_map_release]
    exact .of_nil (fun _ _ => .inr ⟨_, _, rfl⟩) fun _ h => by cases h
  | lost hlist hw =>
    rw [Deed.calls_map_release]
    refine .of_nil (fun _ hi => ?_) ?_
    · simp [World.listLength, hlist] at hi
    · rintro _ ⟨⟩
      exact .inr (.inl ((World.list?_congr hw).trans hlist))
  | failed hi =>
    simp only [Deed.calls, Deed.calls_map_release]
    refine .of_single hi (fun _ _ h => by cases h) ?_
    rintro w' ⟨⟩
    exact ⟨_, rfl⟩
  | decided hi _ hv hr =>
    simp only [Deed.calls, Scheme.calls_settle]
    refine .of_single hi ?_ fun w' h => absurd h (hr w')
    rintro _ _ ⟨⟩
    exact hv
  | next hi hv hw h ih =>
    simp only [Deed.calls, Deed.calls_append, Scheme.calls_settle, List.nil_append]
    exact .cons hi hv (World.listLength_congr hw target) ih

theorem WalkDeeds.readsOn {scheme : Scheme} {steps : Nat} {ds : List Deed}
    {r : Outcome Script.Value} (h : WalkDeeds scheme steps target this args w ds r) :
    ReadsOn (walkOf this args) scheme target steps 0 w (Deed.calls ds) r := by
  cases h with
  | refused hcallback =>
    refine .of_nil (fun hcallable => ?_) fun _ _ => .inr (.inr hcallback)
    cases hcallback.symm.trans hcallable
  | walked h => exact h.readsOn

namespace ReadsOn

variable {walk : Walk} {scheme : Scheme} {steps n : Nat}
  {cs : List (Call × Outcome Script.Value)} {r : Outcome Script.Value}

/-- A call beyond the first `n` is made only if the list outgrows the walk. -/
theorem outgrows (h : ReadsOn walk scheme target steps 0 w cs r) (hn : w.listLength target ≤ n)
    (hlt : n < cs.length) : Outgrows scheme target cs n := by
  cases n with
  | zero => exact absurd (h.first hlt) (by omega)
  | succ k =>
    obtain ⟨c, v, w', hc, hv, hw'⟩ := h.next k hlt
    exact ⟨k, c, v, w', rfl, hc, hv, by omega⟩

/-- Where the list outgrows the walk, another call is made. -/
theorem lt_of_outgrows (h : ReadsOn walk scheme target steps 0 w cs r)
    (hcallable : walk.callback.isFunction = true) (hgrows : Outgrows scheme target cs n) :
    n < cs.length ∨ n = steps ∨ ∃ f w', r = .error (.fault f) w' := by
  obtain ⟨k, c, v, w', rfl, hc, hv, hw'⟩ := hgrows
  exact h.goesOn hcallable k c v w' hc hv (by omega)

/-- A walk that the list always outgrows makes as many calls as it is given steps. -/
theorem length_eq_steps (h : ReadsOn walk scheme target steps 0 w cs r)
    (hcallable : walk.callback.isFunction = true) (hpos : 0 < w.listLength target)
    (hgrows : ∀ n, 0 < n → n ≤ cs.length → Outgrows scheme target cs n) :
    cs.length = steps ∨ ∃ f w', r = .error (.fault f) w' := by
  rcases Nat.eq_zero_or_pos cs.length with hcs | hcs
  · rcases h.starts hcallable hpos with hcs' | hsteps | hfault
    · omega
    · exact .inl (by omega)
    · exact .inr hfault
  · rcases h.lt_of_outgrows hcallable (hgrows cs.length hcs (Nat.le_refl _)) with hlt | heq | hfault
    · omega
    · exact .inl heq
    · exact .inr hfault

end ReadsOn

/-- The list functions that read the list on follow it as it is changed. -/
theorem readsOn_run {f : ListFunction} {scheme : Scheme} (steps : Nat)
    (h : f.scheme? = some scheme) :
    (f.run eng invoke steps target this args).Accounted invoke w fun ds r =>
      ReadsOn (walkOf this args) scheme target steps 0 w (Deed.calls ds) r :=
  (walkDeeds_run h).mono fun _ _ h => h.readsOn

/-- A function that settles the length calls its callback at most once for each element there was at
the start, whatever the callback does to the list, at indices there were then and in their order,
and is cut off only in a call. A function that reads on makes one call after the other at one index
after the other. It makes no more calls than there were elements if the list does not outgrow it
when as many have returned; and where the list does outgrow it, it makes another call, faults
aside. If the list outgrows it for ever it makes as many calls as it is given steps. -/
theorem calls_le_length_or_outgrows (eng : Engine) (invoke : Invoke) (steps : Nat)
    (target : Value) (this : Script.Value) (args : List Script.Value) (w : World) :
    (∀ f order, ListFunction.order? f = some order →
      (f.run eng invoke steps target this args).Accounted invoke w fun ds r =>
        (Deed.calls ds).length ≤ w.listLength target ∧
          Passes target (Arguments.get args 0) (order (w.listLength target)) (Deed.calls ds) r) ∧
    ∀ f scheme, ListFunction.scheme? f = some scheme →
      (f.run eng invoke steps target this args).Accounted invoke w fun ds r =>
        let cs := Deed.calls ds
        ReadsOn (walkOf this args) scheme target steps 0 w cs r ∧
        (¬ Outgrows scheme target cs (w.listLength target) → cs.length ≤ w.listLength target) ∧
        ((Arguments.get args 0).isFunction = true →
          (Outgrows scheme target cs (w.listLength target) →
            w.listLength target < cs.length ∨ w.listLength target = steps ∨
              ∃ f w', r = .error (.fault f) w') ∧
          (0 < w.listLength target →
            (∀ n, 0 < n → n ≤ cs.length → Outgrows scheme target cs n) →
            cs.length = steps ∨ ∃ f w', r = .error (.fault f) w')) := by
  refine ⟨fun f order h => (passes_run steps h).mono fun ds r hr => ⟨?_, hr⟩,
    fun f scheme h => (readsOn_run steps h).mono fun ds r hr => ⟨hr, fun hno => ?_,
      fun hcallable => ⟨hr.lt_of_outgrows hcallable, hr.length_eq_steps hcallable⟩⟩⟩
  · exact length_order h (w.listLength target) ▸ hr.calls_le
  · exact Nat.not_lt.1 fun hlt => hno (hr.outgrows (Nat.le_refl _) hlt)

/-- Callables that all append an element to a list. -/
def appending (target : Value) : Invoke := fun _ _ _ => do
  modify (·.changeItems target (·.push .null))
  return .undefined

/-- On a list of one element, a callback that always appends is called as often as there are
steps. -/
theorem calls_forEach_appending :
    (World.ofItems [.null]).listLength onlyList = 1 ∧
    ((ListFunction.forEach).run (Engine.direct Config.standard) (appending onlyList) 3 onlyList
        .undefined [.function ⟨0⟩]).Accounted (appending onlyList) (World.ofItems [.null])
      fun ds r => (Deed.calls ds).length = 3 ∧
        Outgrows ⟨false, fun _ => false⟩ onlyList (Deed.calls ds) 1 ∧
        ∃ w, r = .error .exhausted w := by
  obtain ⟨ds, hds, -, hle, -⟩ := (calls_le_length_or_outgrows
    (Engine.direct Config.standard) (appending onlyList) 3 onlyList .undefined [.function ⟨0⟩]
    (World.ofItems [.null])).2 .forEach _ rfl
  have hcalls : (Deed.calls ds).length = 3 := by
    have hledger := congrArg List.length (hds.ledger fun _ _ _ _ => rfl).1
    rw [List.length_append, List.length_reverse, List.length_map] at hledger
    exact hledger.symm
  have hlength : (World.ofItems [.null]).listLength onlyList = 1 := rfl
  refine ⟨hlength, ds, hds, hcalls, ?_, ⟨_, rfl⟩⟩
  by_contra hno
  have := hle hno
  rw [hcalls, hlength] at this
  omega

/-- Callables that append an element to a list when the ledger holds one call, and otherwise do
nothing. -/
def appendingOnce (target : Value) : Invoke := fun _ _ _ => do
  if (← get).ledger.calls.length = 1 then modify (·.changeItems target (·.push .null))
  return .undefined

/-- A callback that appends an element at its first call is called for this element as well: on a
list of one element there is no account of fewer than two calls. -/
theorem not_calls_forEach_le_length :
    ¬ ((ListFunction.forEach).run (Engine.direct Config.standard) (appendingOnce onlyList) 4
        onlyList .undefined [.function ⟨0⟩]).Accounted (appendingOnce onlyList)
      (World.ofItems [.null]) fun ds _ =>
        (Deed.calls ds).length ≤ (World.ofItems [.null]).listLength onlyList := by
  rintro ⟨ds, hds, hle⟩
  have hquiet : ∀ r this args (w : World),
      (Outcome.world (appendingOnce onlyList r this args w)).ledger = w.ledger := by
    intro r this args w
    unfold appendingOnce
    rw [Run.get_bind]
    split <;> rfl
  have hledger := congrArg List.length (hds.ledger hquiet).1
  rw [List.length_append, List.length_reverse, List.length_map] at hledger
  have hlength : (World.ofItems [.null]).listLength onlyList = 1 := rfl
  have hcalls : 2 = (Deed.calls ds).length := hledger
  omega

end Membrane
