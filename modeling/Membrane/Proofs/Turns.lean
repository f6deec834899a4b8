import Membrane.Proofs.ListFunction
import Membrane.Proofs.Visiting

/-!
# Elements taken in turn

The functions of lists that take a callback are loops of one kind. In each turn an element is
carried to the script and a call is made on it, and what the call returns decides whether the loop
goes on and with what. Some of these functions read the list anew in every turn, and some settle at
the start which indices they go over, first to last or last to first. With a callback that leaves
the list alone this makes no difference: they all go over the items there were at the start.

What becomes of such a loop is told by the calls it makes. There is one rule for each way a turn can
go: the element cannot be carried to the script, the call fails, the loop goes on, or it stops.

## Main definitions

* `Turns`, `Turns.run`: a loop over elements with their indices.
* `TakesTurns`: the calls of such a loop, and how it ends.
* `Turns.Does`: what the parts of a loop have to do for it to go so.

## Main results

* `forward_eq_run`, `backward_eq_run`, `foldIndices_eq_run`: the loops of list functions.
* `Turns.accounted_run`: what calls a loop makes, and what it ends with.
-/

namespace Membrane

open Host (Value)

/-- Makes a call. -/
def Call.run (c : Call) (invoke : Invoke) : Run Script.Value :=
  Run.call invoke c.callee c.this c.args

/-- A loop that makes a call on each of some elements. -/
structure Turns (σ β : Type) where
  /-- The call on an element, as the script sees it, and its index. -/
  callOn : σ → Script.Value → Nat → Call
  /-- What is made of the value the call returns. -/
  react : σ → Value → Nat → Script.Value → Run (Step σ β)
  /-- The result where there are no more elements. -/
  finish : σ → Run β
  /-- What is done where a turn fails. -/
  giveUp : σ → Run Unit

namespace Turns

variable {σ β : Type} (t : Turns σ β) (eng : Engine) (invoke : Invoke)

/-- Makes the call on an element. -/
def ask (s : σ) (v : Value) (i : Nat) : Run Script.Value := do
  let element ← eng.toScript v
  (t.callOn s element i).run invoke

/-- The turn of an element. -/
def turn (s : σ) (v : Value) (i : Nat) : Run (Step σ β) := do
  t.react s v i (← t.ask eng invoke s v i)

/-- Takes elements with their indices in turn. -/
def run : List (Value × Nat) → σ → Run β
  | [], s => t.finish s
  | (v, i) :: rest, s => do
    match ← (t.turn eng invoke s v i).onHalt (t.giveUp s) with
    | .next s' => run rest s'
    | .done b => return b

end Turns

/-- A step of a backward walk as a turn: a result ends the loop. -/
def pickStep {β : Type} (x : Run (Option β)) : Run (Step Unit (Option β)) := do
  match ← x with
  | some b => return .done (some b)
  | none => return .next ()

/-- Wherever a callback is called under a condition that lasts, it leaves a list as it was. -/
abbrev LeavesList (I : World → Prop) (invoke : Invoke) (callback : Script.Value) (target : Value) :
    Prop :=
  CallsWithin I (World.KeepsList target) invoke callback

/-! ### The loops of list functions -/

section Loops

variable {eng : Engine} {invoke : Invoke} {target : Value} {items : List Value} {w w₁ : World}
  {I : World → Prop} {σ β : Type}

theorem elementAt_eq_ok (hlist : w.list? target = some items.toArray) (i : Nat) :
    elementAt target i w = .ok items[i]? w := by
  rw [elementAt_apply, hlist]
  simp only [List.getElem?_toArray]

theorem onHalt_of_ok {α : Type} {x : Run α} {a : α} (h : x w = .ok a w₁) (cleanup : Run Unit) :
    x.onHalt cleanup w = .ok a w₁ := by
  simp only [Run.onHalt, h]

theorem onHalt_of_error {α : Type} {x : Run α} {e : Halt} (h : x w = .error e w₁)
    (cleanup : Run Unit) : x.onHalt cleanup w = .error e (Outcome.world (cleanup w₁)) := by
  simp only [Run.onHalt, h]
  cases cleanup w₁ <;> rfl

/-- To do nothing where a computation fails is no different. -/
theorem onHalt_nothing {α : Type} (x : Run α) (s : σ) : x.onHalt (nothing s) = x := by
  funext w
  simp only [Run.onHalt]
  cases x w <;> rfl

/-- What is done where a computation fails does not matter where it succeeds. -/
theorem ok_of_onHalt {α : Type} {x : Run α} {cleanup : Run Unit} {a : α}
    (h : x.onHalt cleanup w = .ok a w₁) : x w = .ok a w₁ := by
  cases hx : x w with
  | ok b w₂ => rwa [onHalt_of_ok hx] at h
  | error e w₂ =>
    rw [onHalt_of_error hx] at h
    cases h

/-- A turn leaves a list as it was if the callback does. -/
theorem Turns.within_turn {t : Turns σ β} {callback : Script.Value}
    (hcallee : ∀ s element i, (t.callOn s element i).callee = callback)
    (hkeeps : LeavesList I invoke callback target)
    (hreact : ∀ s v i a, (t.react s v i a).Within (World.Under I (World.KeepsList target))) (s : σ)
    (v : Value) (i : Nat) :
    (t.turn eng invoke s v i).Within (World.Under I (World.KeepsList target)) := by
  refine .bind (.bind (hkeeps.within_of_adds
    ((eng.within_toScript v).mono fun _ _ => World.AddsHandlers.adds)
    ((eng.within_toScript v).mono fun _ _ h => World.list?_congr h.alike.objects))
    fun element => ?_) fun a => hreact s v i a
  change (Run.call invoke (t.callOn s element i).callee _ _).Within _
  rw [hcallee]
  exact hkeeps.within_call (fun _ _ _ => rfl) _ _

/-- The items from an index on, with their indices. -/
theorem drop_zipIdx_of_lt {i : Nat} (hi : i < items.length) :
    items.zipIdx.drop i = (items[i], i) :: items.zipIdx.drop (i + 1) := by
  rw [List.drop_eq_getElem_cons (by rwa [List.length_zipIdx]), List.getElem_zipIdx, Nat.zero_add]

/-- A loop that reads the list anew at each index goes over the items there are. -/
theorem forward_eq_run {t : Turns σ β}
    (hturn : ∀ s v i, (t.turn eng invoke s v i).Within (World.Under I (World.KeepsList target)))
    {n i : Nat} (hi : i ≤ items.length) (hsteps : items.length < n + i) (hw : I w)
    (hlist : w.list? target = some items.toArray) (s : σ) :
    forward target (t.turn eng invoke) t.finish t.giveUp n i s w =
      t.run eng invoke (items.zipIdx.drop i) s w := by
  -- Each turn uses up a step and an item, and leaves the list for the next one to read.
  induction n generalizing i s w with
  | zero => omega
  | succ n ih =>
    have helement : (elementAt target i).onHalt (t.giveUp s) w = .ok items[i]? w := by
      simp only [Run.onHalt, elementAt_eq_ok hlist]
    unfold forward
    rw [Run.bind_of_ok helement]
    by_cases hlt : i < items.length
    · rw [List.getElem?_eq_getElem hlt, drop_zipIdx_of_lt hlt]
      refine Run.bind_eq_bind rfl fun step w₁ hstep => ?_
      cases step with
      | done b => rfl
      | next s' =>
        obtain ⟨hw₁, hkeeps⟩ : I w₁ ∧ w.KeepsList target w₁ :=
          (hturn s _ i).rel_of_ok (ok_of_onHalt hstep) hw
        exact ih hlt (by omega) hw₁ (Eq.trans hkeeps hlist) s'
    · rw [List.getElem?_eq_none (Nat.le_of_not_lt hlt), List.drop_eq_nil_of_le
        (by rw [List.length_zipIdx]; omega)]
      rfl

/-- A loop that goes over the indices below a number from the last to the first goes over the items
there are. -/
theorem backward_eq_run {t : Turns Unit (Option β)} {step : Value → Nat → Run (Option β)}
    (hturn : ∀ v i, (t.turn eng invoke () v i).Within (World.Under I (World.KeepsList target)))
    (hstep : ∀ v i, t.turn eng invoke () v i = pickStep (step v i))
    (hfinish : t.finish () = pure none) (hgiveUp : t.giveUp = nothing) {i : Nat}
    (hi : i ≤ items.length) (hw : I w) (hlist : w.list? target = some items.toArray) :
    backward target step i w = t.run eng invoke (items.zipIdx.take i).reverse () w := by
  induction i generalizing w with
  | zero =>
    rw [List.take_zero, List.reverse_nil, Turns.run, hfinish]
    rfl
  | succ i ih =>
    have htake : (items.zipIdx.take (i + 1)).reverse =
        (items[i], i) :: (items.zipIdx.take i).reverse := by
      rw [List.take_succ_eq_append_getElem (by rwa [List.length_zipIdx]), List.reverse_append,
        List.getElem_zipIdx, Nat.zero_add]
      rfl
    unfold backward
    rw [Run.bind_of_ok (elementAt_eq_ok hlist i), List.getElem?_eq_getElem hi, htake, Turns.run,
      hgiveUp, onHalt_nothing, hstep, pickStep, bind_assoc]
    refine Run.bind_eq_bind rfl fun found w₁ hfound => ?_
    cases found with
    | some b => rfl
    | none =>
      have hgoes : t.turn eng invoke () items[i] i w = .ok (.next ()) w₁ := by
        rw [hstep, pickStep, Run.bind_of_ok hfound]
        rfl
      obtain ⟨hw₁, hkeeps⟩ : I w₁ ∧ w.KeepsList target w₁ := (hturn _ i).rel_of_ok hgoes hw
      exact ih (Nat.le_of_lt hi) hw₁ (Eq.trans hkeeps hlist)

/-- The loop of a fold, which carries its accumulator along. -/
def foldTurns (callback this : Script.Value) : Turns Script.Value Script.Value where
  callOn acc element i := foldOn callback this acc element i
  react acc _ _ result := do
    Run.release acc
    return .next result
  finish acc := return acc
  giveUp acc := Run.release acc

/-- A fold over indices goes over the items at them. -/
theorem foldIndices_eq_run {callback this : Script.Value}
    (hturn : ∀ acc v i, ((foldTurns callback this).turn eng invoke acc v i).Within
      (World.Under I (World.KeepsList target)))
    {vs : List (Value × Nat)} (hvs : ∀ p ∈ vs, items[p.2]? = some p.1) (hw : I w)
    (hlist : w.list? target = some items.toArray) (acc : Script.Value) :
    OnList.foldIndices eng invoke target this callback (vs.map Prod.snd) acc w =
      (foldTurns callback this).run eng invoke vs acc w := by
  induction vs generalizing w acc with
  | nil => rfl
  | cons p rest ih =>
    obtain ⟨v, i⟩ := p
    obtain ⟨hv, hrest⟩ := List.forall_mem_cons.1 hvs
    have hstep : OnList.foldStep eng invoke target this callback i acc w =
        (do return some (← (foldTurns callback this).ask eng invoke acc v i)) w := by
      unfold OnList.foldStep
      rw [Run.bind_of_ok (elementAt_eq_ok hlist i), hv]
      simp only [Turns.ask, bind_assoc]
      rfl
    rw [List.map_cons, OnList.foldIndices, Turns.run]
    cases hask : (foldTurns callback this).ask eng invoke acc v i w with
    | error e w₁ =>
      have hturn : (foldTurns callback this).turn eng invoke acc v i w = .error e w₁ :=
        Run.bind_of_error hask
      rw [Run.bind_of_error (onHalt_of_error (hstep.trans (Run.bind_of_error hask)) _),
        Run.bind_of_error (onHalt_of_error hturn _)]
      rfl
    | ok a w₁ =>
      obtain ⟨w₂, hrelease⟩ : ∃ w₂, Run.release acc w₁ = .ok () w₂ := ⟨_, rfl⟩
      have hgoes : (foldTurns callback this).turn eng invoke acc v i w = .ok (.next a) w₂ :=
        (Run.bind_of_ok hask).trans (Run.bind_of_ok hrelease)
      obtain ⟨hw₂, hkeeps⟩ : I w₂ ∧ w.KeepsList target w₂ := (hturn acc v i).rel_of_ok hgoes hw
      rw [Run.bind_of_ok (onHalt_of_ok (hstep.trans (Run.bind_of_ok hask)) _),
        Run.bind_of_ok (onHalt_of_ok hgoes _)]
      exact (Run.bind_of_ok hrelease).trans (ih hrest hw₂ (Eq.trans hkeeps hlist) a)

end Loops

/-! ### How a loop goes -/

/-- How a loop ends. -/
inductive Ending (σ : Type) where
  /-- No element is left, and the loop has come to a state. -/
  | passed (s : σ)
  /-- An element, at its index, has decided the loop. -/
  | stopped (v : Value) (i : Nat)
  /-- A call has failed, or an element cannot be carried to the script. -/
  | halted (e : Halt)

section Going

variable {σ β : Type} (eng : Engine) (invoke : Invoke) (callOn : σ → Script.Value → Nat → Call)
  (next : σ → Value → Nat → Script.Value → Option σ)

/-- The calls of a loop over some elements, in their order and with their outcomes, and how it ends.
What a call returns gives the state in which the loop goes on, or none where it stops. -/
inductive TakesTurns :
    σ → List (Value × Nat) → List (Call × Outcome Script.Value) → Ending σ → Prop
  /-- No element is left. -/
  | passed (s : σ) : TakesTurns s [] [] (.passed s)
  /-- The element cannot be carried to the script. -/
  | refused {s : σ} {v : Value} {i : Nat} {rest : List (Value × Nat)} {e : Halt} {w w₁ : World}
      (hv : eng.toScript v w = .error e w₁) : TakesTurns s ((v, i) :: rest) [] (.halted e)
  /-- The call on the element fails. -/
  | failed {s : σ} {v : Value} {i : Nat} {rest : List (Value × Nat)} {element : Script.Value}
      {e : Halt} {w w₁ w₂ : World} (hv : eng.toScript v w = .ok element w₁)
      (hc : (callOn s element i).run invoke w₁ = .error e w₂) :
      TakesTurns s ((v, i) :: rest) [(callOn s element i, .error e w₂)] (.halted e)
  /-- What the call returns stops the loop. -/
  | stopped {s : σ} {v : Value} {i : Nat} {rest : List (Value × Nat)} {element a : Script.Value}
      {w w₁ w₂ : World} (hv : eng.toScript v w = .ok element w₁)
      (hc : (callOn s element i).run invoke w₁ = .ok a w₂) (hnext : next s v i a = none) :
      TakesTurns s ((v, i) :: rest) [(callOn s element i, .ok a w₂)] (.stopped v i)
  /-- The loop goes on. -/
  | next {s s' : σ} {v : Value} {i : Nat} {rest : List (Value × Nat)} {element a : Script.Value}
      {w w₁ w₂ : World} {cs : List (Call × Outcome Script.Value)} {e : Ending σ}
      (hv : eng.toScript v w = .ok element w₁)
      (hc : (callOn s element i).run invoke w₁ = .ok a w₂) (hnext : next s v i a = some s')
      (h : TakesTurns s' rest cs e) :
      TakesTurns s ((v, i) :: rest) ((callOn s element i, .ok a w₂) :: cs) e

/-- What a loop results in where no element is left, and what it answers where one decides it, make
its outcome. -/
inductive Ending.Gives (finish : σ → Run β) (answer : Value → Nat → Run β) :
    Ending σ → Outcome β → Prop
  | passed {s : σ} {w : World} {r : Outcome β} (h : finish s w = r) :
      Gives finish answer (.passed s) r
  | answered {v : Value} {i : Nat} {b : β} {w w' : World} (h : answer v i w = .ok b w') :
      Gives finish answer (.stopped v i) (.ok b w')
  | spoilt {v : Value} {i : Nat} {e : Halt} {w w₁ : World} (h : answer v i w = .error e w₁)
      (w' : World) : Gives finish answer (.stopped v i) (.error e w')
  | halted (e : Halt) (w : World) : Gives finish answer (.halted e) (.error e w)

/-- What is made of the value a call returns: the next state, or the answer where there is none. -/
inductive Reacts (answer : Value → Nat → Run β) (s : σ) (v : Value) (i : Nat) (a : Script.Value) :
    Outcome (Step σ β) → Prop
  | next {s' : σ} {w : World} (h : next s v i a = some s') :
      Reacts answer s v i a (.ok (.next s') w)
  | done {b : β} {w w' : World} (h : next s v i a = none) (hb : answer v i w = .ok b w') :
      Reacts answer s v i a (.ok (.done b) w')
  | spoilt {e : Halt} {w w' : World} (h : next s v i a = none) (hb : answer v i w = .error e w') :
      Reacts answer s v i a (.error e w')

/-- Apart from its calls, a loop does nothing but release and hold values. -/
structure Turns.Does (t : Turns σ β) (answer : Value → Nat → Run β) : Prop where
  /-- It makes of a value what is to be made of it. -/
  reacts : ∀ s v i a w, (t.react s v i a).Accounted invoke w fun ds r =>
    Deed.calls ds = [] ∧ Reacts next answer s v i a r
  /-- Its result has no deeds. -/
  finishes : ∀ s, (t.finish s).Quiet
  /-- It makes no call where a turn fails. -/
  givesUp : ∀ s w, (t.giveUp s).Accounted invoke w fun ds _ => Deed.calls ds = []

end Going

section Accounts

variable {σ β : Type} {eng : Engine} {invoke : Invoke} {t : Turns σ β}
  {next next' : σ → Value → Nat → Script.Value → Option σ} {answer : Value → Nat → Run β}

/-- Only the next state after the value that is returned matters. -/
theorem Reacts.congr {s : σ} {v : Value} {i : Nat} {a : Script.Value} {r : Outcome (Step σ β)}
    (h : Reacts next answer s v i a r) (hnext : next s v i a = next' s v i a) :
    Reacts next' answer s v i a r := by
  cases h with
  | next h => exact .next (hnext ▸ h)
  | done h hb => exact .done (hnext ▸ h) hb
  | spoilt h hb => exact .spoilt (hnext ▸ h) hb

/-- The call on an element, if it can be carried to the script. -/
theorem Turns.accounted_ask (s : σ) (v : Value) (i : Nat) (w : World) :
    (t.ask eng invoke s v i).Accounted invoke w fun ds r =>
      (∃ e w₁, eng.toScript v w = .error e w₁ ∧ ds = [] ∧ r = .error e w₁) ∨
        ∃ element w₁, eng.toScript v w = .ok element w₁ ∧
          ds = [.call (t.callOn s element i) r] ∧ (t.callOn s element i).run invoke w₁ = r := by
  refine .bind_quiet (eng.quiet_toScript v) (fun element w₁ _ hv => ?_) fun f w₁ _ hv => ?_
  · exact ⟨[.call (t.callOn s element i) ((t.callOn s element i).run invoke w₁)],
      .single ⟨rfl, rfl⟩, .inr ⟨element, w₁, hv, rfl, rfl⟩⟩
  · exact .inl ⟨_, w₁, hv, rfl, rfl⟩

/-- How one turn goes: how a loop goes on that starts with it, or what it ends with. -/
inductive TurnTaken (eng : Engine) (invoke : Invoke) (t : Turns σ β)
    (next : σ → Value → Nat → Script.Value → Option σ) (answer : Value → Nat → Run β) (s : σ)
    (v : Value) (i : Nat) (cs : List (Call × Outcome Script.Value)) : Outcome (Step σ β) → Prop
  | goesOn {s' : σ} {w : World}
      (h : ∀ rest cs' e, TakesTurns eng invoke t.callOn next s' rest cs' e →
        TakesTurns eng invoke t.callOn next s ((v, i) :: rest) (cs ++ cs') e) :
      TurnTaken eng invoke t next answer s v i cs (.ok (.next s') w)
  | ends {e : Ending σ} {b : β} {w : World}
      (h : ∀ rest, TakesTurns eng invoke t.callOn next s ((v, i) :: rest) cs e)
      (hb : e.Gives t.finish answer (.ok b w)) :
      TurnTaken eng invoke t next answer s v i cs (.ok (.done b) w)
  | fails {e : Ending σ} {e' : Halt} {w : World}
      (h : ∀ rest, TakesTurns eng invoke t.callOn next s ((v, i) :: rest) cs e)
      (he : ∀ w', e.Gives t.finish answer (.error e' w')) :
      TurnTaken eng invoke t next answer s v i cs (.error e' w)

namespace Turns

/-- How a turn goes where what its call returns gives a next state. -/
theorem accounted_turn (ht : t.Does invoke next answer) {s : σ} {v : Value} {i : Nat} {w : World}
    (hnext : ∀ a w', t.ask eng invoke s v i w = .ok a w' → next s v i a = next' s v i a) :
    (t.turn eng invoke s v i).Accounted invoke w fun ds r =>
      TurnTaken eng invoke t next' answer s v i (Deed.calls ds) r := by
  refine .bind (accounted_ask s v i w) ?_ ?_
  · rintro ds a w₁ (⟨_, _, _, _, ⟨⟩⟩ | ⟨element, w₀, hv, rfl, hc⟩)
    refine (ht.reacts s v i a w₁).mono ?_
    rintro ds r ⟨hcalls, hr⟩
    replace hr := hr.congr (hnext a w₁ ((Run.bind_of_ok hv).trans hc))
    have hcs : Deed.calls ([.call (t.callOn s element i) (.ok a w₁)] ++ ds) =
        [(t.callOn s element i, .ok a w₁)] := by
      rw [Deed.calls_append, hcalls]
      rfl
    rw [hcs]
    cases hr with
    | next h => exact .goesOn fun rest cs e hrest => .next hv hc h hrest
    | done h hb => exact .ends (fun rest => .stopped hv hc h) (.answered hb)
    | spoilt h hb => exact .fails (fun rest => .stopped hv hc h) (.spoilt hb)
  · rintro ds e w₁ (⟨_, _, hv, rfl, ⟨⟩⟩ | ⟨element, w₀, hv, rfl, hc⟩)
    · exact .fails (fun rest => .refused hv) (.halted e)
    · exact .fails (fun rest => .failed hv hc) (.halted e)

/-- What calls a loop makes on the elements, and what it ends with. What its calls return where they
are made under a condition that each turn keeps tells how it goes on. -/
theorem accounted_run (next' : σ → Value → Nat → Script.Value → Option σ)
    (ht : t.Does invoke next answer) {I : World → Prop} {R : World → World → Prop}
    {vs : List (Value × Nat)}
    (hturn : ∀ s v i, (t.turn eng invoke s v i).Within (World.Under I R))
    (hnext : ∀ p ∈ vs, ∀ s w a w', I w → t.ask eng invoke s p.1 p.2 w = .ok a w' →
      next s p.1 p.2 a = next' s p.1 p.2 a) (s : σ) {w : World} (hw : I w) :
    (t.run eng invoke vs s).Accounted invoke w fun ds r => ∃ e,
      TakesTurns eng invoke t.callOn next' s vs (Deed.calls ds) e ∧ e.Gives t.finish answer r := by
  induction vs generalizing s w with
  | nil => exact .of_quiet (ht.finishes s) ⟨_, .passed s, .passed rfl⟩
  | cons p rest ih =>
    obtain ⟨v, i⟩ := p
    obtain ⟨hfirst, hrest⟩ := List.forall_mem_cons.1 hnext
    -- What is given up where the turn fails makes no calls.
    have htaken : ((t.turn eng invoke s v i).onHalt (t.giveUp s)).Accounted invoke w fun ds r =>
        TurnTaken eng invoke t next' answer s v i (Deed.calls ds) r := by
      refine .onHalt (accounted_turn ht fun a w' => hfirst s w a w' hw) (fun _ _ _ h => h)
        fun ds e w₁ h => ?_
      refine (ht.givesUp s w₁).mono fun ds' r hds' => ?_
      rw [Deed.calls_append, hds', List.append_nil]
      cases h with
      | fails h he => exact .fails h he
    have hcondition (step : Step σ β) (w₁ : World)
        (hstep : (t.turn eng invoke s v i).onHalt (t.giveUp s) w = .ok step w₁) : I w₁ :=
      ((hturn s v i).rel_of_ok (ok_of_onHalt hstep) hw).1
    refine .bind (htaken.and_eq) ?_ ?_
    · rintro ds step w₁ ⟨h, hstep⟩
      cases h with
      | goesOn h =>
        refine (ih hrest _ (hcondition _ w₁ hstep)).mono ?_
        rintro ds' r ⟨e, hrest, hr⟩
        rw [Deed.calls_append]
        exact ⟨e, h _ _ _ hrest, hr⟩
      | ends h hb =>
        refine .pure ?_
        rw [List.append_nil]
        exact ⟨_, h rest, hb⟩
    · rintro ds e w₁ ⟨h, -⟩
      cases h with
      | fails h he => exact ⟨_, h rest, he w₁⟩

end Turns

end Accounts

section Facts

variable {σ : Type} {eng : Engine} {invoke : Invoke} {callOn : σ → Script.Value → Nat → Call}
  {next : σ → Value → Nat → Script.Value → Option σ} {s : σ} {vs : List (Value × Nat)}
  {cs : List (Call × Outcome Script.Value)} {e : Ending σ}

namespace TakesTurns

/-- A call that fails is the last one, and the loop ends with its error. -/
theorem aborts (h : TakesTurns eng invoke callOn next s vs cs e) {k : Nat} {c : Call} {e' : Halt}
    {w : World} (hc : cs[k]? = some (c, .error e' w)) :
    k + 1 = cs.length ∧ e = .halted e' := by
  induction h generalizing k with
  | passed s => cases hc
  | refused => cases hc
  | failed =>
    cases k with
    | zero =>
      cases hc
      exact ⟨rfl, rfl⟩
    | succ k => cases hc
  | stopped =>
    cases k with
    | zero => cases hc
    | succ k => cases hc
  | next _ _ _ _ ih =>
    cases k with
    | zero => cases hc
    | succ k => exact (ih hc).imp_left (congrArg (· + 1))

/-- A loop halts with the error of its last call or with that of an element that cannot be carried
to the script. -/
theorem of_halted (h : TakesTurns eng invoke callOn next s vs cs e) {e' : Halt}
    (he : e = .halted e') :
    (∃ c w, cs.getLast? = some (c, .error e' w)) ∨
      ∃ p ∈ vs, ∃ w w₁, eng.toScript p.1 w = .error e' w₁ := by
  induction h with
  | passed s => cases he
  | refused hv =>
    cases he
    exact .inr ⟨_, List.mem_cons_self, _, _, hv⟩
  | failed =>
    cases he
    exact .inl ⟨_, _, rfl⟩
  | stopped => cases he
  | next _ _ _ _ ih =>
    obtain ⟨c, w, hlast⟩ | ⟨p, hp, hv⟩ := ih he
    · exact .inl ⟨c, w, by rw [List.getLast?_cons, hlast]; rfl⟩
    · exact .inr ⟨p, List.mem_cons_of_mem _ hp, hv⟩

/-- A loop that goes on after every call is not stopped. -/
theorem ne_stopped (h : TakesTurns eng invoke callOn next s vs cs e)
    (hnext : ∀ s v i a, (next s v i a).isSome = true) (v : Value) (i : Nat) :
    e ≠ .stopped v i := by
  induction h with
  | @stopped s v i _ _ a _ _ _ _ _ hnone =>
    have hsome := hnext s v i a
    rw [hnone] at hsome
    cases hsome
  | next _ _ _ _ ih => exact ih
  | _ => nofun

/-- Where a loop passes all elements, there is a call for each. -/
theorem length_of_passed (h : TakesTurns eng invoke callOn next s vs cs e) {s' : σ}
    (he : e = .passed s') : cs.length = vs.length := by
  induction h with
  | passed s => rfl
  | next _ _ _ _ ih => exact congrArg (· + 1) (ih he)
  | _ => cases he

end TakesTurns

end Facts

end Membrane
