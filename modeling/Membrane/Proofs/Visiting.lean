import Membrane.Proofs.Callbacks
import Membrane.Proofs.Items
import Membrane.Proofs.Iterators
import Membrane.Proofs.Pass

/-!
# Values visited in turn

Both lists and sets have a function that calls a callback on each of their values. On a set it goes
over the members there were at the start. On a list it reads the list on as it goes, but with a
callback that leaves the list alone it goes over the items there were as well. So both come to one
loop over the values, and of this loop it is shown what the callback is called on.

## Main definitions

* `visitEach`: the loop.
* `World.KeepsThings`: the objects and handlers there were are still there.
* `VisitsInTurn`: the calls are made on the values, one after the other.

## Main results

* `Engine.CodeWithin.keepsThings_callback`: callbacks keep the objects and handlers there were.
* `visitsInTurn_visitEach`: what the loop calls the callback on.
* `visit_eq_visitEach`, `forEach_eq_visitEach`: the functions of sets and lists as this loop.
-/

namespace Membrane

open Host (Value)

/-- Carries values to the script, one after the other, makes a call on each and releases what the
call returns. The call is determined by what the value is carried as and by its position. -/
def visitEach (eng : Engine) (invoke : Invoke) (callOn : Script.Value → Nat → Call) :
    List Value → Nat → Run Unit
  | [], _ => return ()
  | v :: rest, i => do
    let s ← eng.toScript v
    Run.release (← Run.call invoke (callOn s i).callee (callOn s i).this (callOn s i).args)
    visitEach eng invoke callOn rest (i + 1)

/-- The objects and handlers there were are still there, and the handlers answer for the same
values. -/
structure World.KeepsThings (w w' : World) : Prop where
  /-- The objects. -/
  objects : w.KeepsObjects w'
  /-- The handlers. -/
  targets : w.KeepsTargets w'

instance : IsPreorder World World.KeepsThings where
  refl w := ⟨fun _ h => h, refl w⟩
  trans w w₁ w₂ h h' := ⟨fun v hv => h'.objects v (h.objects v hv),
    IsTrans.trans w w₁ w₂ h.targets h'.targets⟩

/-- What a list holds is as it was. -/
def World.KeepsList (target : Value) (w w' : World) : Prop := w'.list? target = w.list? target

instance (target : Value) : IsPreorder World (World.KeepsList target) where
  refl _ := rfl
  trans _ _ _ h h' := h'.trans h

theorem World.KeepsThings.of_eq {w w' : World} (hobjects : w'.objects = w.objects)
    (hhandlers : w'.handlers = w.handlers) : w.KeepsThings w' :=
  ⟨fun _ hv => hv.congr hobjects, .of_handlers_eq hhandlers⟩

theorem World.AddsHandlers.keepsThings {w w' : World} (h : w.AddsHandlers w') : w.KeepsThings w' :=
  ⟨fun _ hv => hv.congr h.alike.objects, h.keepsTargets⟩

/-- All that is called leaves objects and handlers where they are, unless the embedder's code does
not. -/
theorem Engine.CodeWithin.keepsThings_callback {eng : Engine}
    (hs : eng.CodeWithin World.KeepsThings) (n : Nat) (callback : Script.Value) :
    CallsWithin (fun _ => True) World.KeepsThings (eng.invoke n) callback :=
  hs.callsWithin (fun _ _ h => ⟨h.objects, h.targets⟩) n callback

/-- The calls among some deeds are made on values in their order, on each as the script sees it.
They are made on all of them unless one call fails, which is the last one then. -/
structure VisitsInTurn {α : Type} (callOn : Script.Value → Nat → Call) (vs : List Value)
    (first : Nat) (ds : List Deed) (r : Outcome α) : Prop where
  /-- Each call is made on what the script sees of the value in the same place. -/
  shown : ∀ (i : Nat) (c : Call) (o : Outcome Script.Value), (Deed.calls ds)[i]? = some (c, o) →
    ∃ v s, vs[i]? = some v ∧ r.world.Shows v s ∧ c = callOn s (first + i)
  /-- If it ends well, there is a call for each value. -/
  complete : ∀ a w, r = .ok a w → (Deed.calls ds).length = vs.length
  /-- If it fails, the last call has failed. -/
  fails : ∀ e w, r = .error e w → ∃ c w₁, (Deed.calls ds).getLast? = some (c, .error e w₁)

section Visits

variable {eng : Engine} {invoke : Invoke} {callOn : Script.Value → Nat → Call} {v : Value}
  {vs : List Value} {w : World} {I : World → Prop} {callback : Script.Value}

/-- Carrying a value to the script lets a condition last and keeps what there was. -/
theorem CallsWithin.keepsThings_toScript (h : CallsWithin I World.KeepsThings invoke callback)
    (v : Value) : (eng.toScript v).Within (World.Under I World.KeepsThings) :=
  h.within_of_adds ((eng.within_toScript v).mono fun _ _ => World.AddsHandlers.adds)
    ((eng.within_toScript v).mono fun _ _ => World.AddsHandlers.keepsThings)

theorem CallsWithin.keepsThings_release (h : CallsWithin I World.KeepsThings invoke callback)
    (a : Script.Value) : (Run.release a).Within (World.Under I World.KeepsThings) :=
  h.within_of_adds (Run.adds_release a) fun _ => .of_eq rfl rfl

variable (hcallee : ∀ s i, (callOn s i).callee = callback)
  (hcalls : CallsWithin I World.KeepsThings invoke callback)
include hcallee hcalls

/-- A call of the callback that leaves everything where it is. -/
theorem keepsThings_callOn (s : Script.Value) (i : Nat) :
    (Run.call invoke (callOn s i).callee (callOn s i).this (callOn s i).args).Within
      (World.Under I World.KeepsThings) := by
  rw [hcallee]
  exact hcalls.within_call (fun _ _ _ => .of_eq rfl rfl) _ _

theorem keepsThings_visitEach (vs : List Value) (i : Nat) :
    (visitEach eng invoke callOn vs i).Within (World.Under I World.KeepsThings) := by
  induction vs generalizing i with
  | nil => exact .pure ()
  | cons v rest ih =>
    refine .bind (hcalls.keepsThings_toScript v) fun s => ?_
    refine .bind (keepsThings_callOn hcallee hcalls s i) fun a => ?_
    exact .bind (hcalls.keepsThings_release a) fun _ => ih (i + 1)

omit hcallee hcalls

/-- The call on the first value fails. -/
theorem VisitsInTurn.failed {α : Type} {first : Nat} {s : Script.Value} {e : Halt}
    (hshows : w.Shows v s) :
    VisitsInTurn callOn (v :: vs) first [.call (callOn s first) (.error e w)]
      (.error e w : Outcome α) := by
  refine ⟨fun i c o hi => ?_, nofun, fun e' w' hr => ?_⟩
  · obtain ⟨rfl, heq⟩ : i = 0 ∧ (callOn s first, .error e w) = (c, o) := by
      simpa [Deed.calls, List.getElem?_singleton] using hi
    cases heq
    exact ⟨v, s, rfl, hshows, rfl⟩
  · cases hr
    exact ⟨callOn s first, w, rfl⟩

/-- A call on the first value is followed by those on the others. -/
theorem VisitsInTurn.cons {α : Type} {first : Nat} {s answer : Script.Value} {ds : List Deed}
    {r : Outcome α} (h : VisitsInTurn callOn vs (first + 1) ds r) (hshows : r.world.Shows v s) :
    VisitsInTurn callOn (v :: vs) first
      (.call (callOn s first) (.ok answer w) :: .release answer :: ds) r := by
  refine ⟨fun i c o hi => ?_, fun a w' hr => ?_, fun e w' hr => ?_⟩
  · cases i with
    | zero =>
      cases hi
      exact ⟨v, s, rfl, hshows, rfl⟩
    | succ i =>
      obtain ⟨v', s', hv', hshows', hc⟩ := h.shown i c o hi
      exact ⟨v', s', hv', hshows', by rw [hc, Nat.add_assoc, Nat.add_comm 1]⟩
  · exact congrArg (· + 1) (h.complete a w' hr)
  · obtain ⟨c, w₁, hlast⟩ := h.fails e w' hr
    refine ⟨c, w₁, ?_⟩
    change ((callOn s first, .ok answer w) :: Deed.calls ds).getLast? = _
    rw [List.getLast?_cons, hlast]
    rfl

include hcallee hcalls in
/-- The loop calls the callback on the values in their order. -/
theorem visitsInTurn_visitEach (hw : I w) (hcross : ∀ v ∈ vs, w.Crosses eng v) (first : Nat) :
    (visitEach eng invoke callOn vs first).Accounted invoke w (VisitsInTurn callOn vs first) := by
  induction vs generalizing w first with
  | nil => exact .pure ⟨by simp [Deed.calls], fun _ _ _ => rfl, nofun⟩
  | cons v rest ih =>
    obtain ⟨hv, hrest⟩ := List.forall_mem_cons.1 hcross
    obtain ⟨s, w₁, hs⟩ := Engine.toScript_eq_ok_of_crosses (hv.passes w) hv.known
    have hadds : w.AddsHandlers w₁ := (eng.within_toScript v).rel_of_ok hs
    have hshows : w₁.Shows v s := Engine.shows_of_toScript hs
    have hw₁ : I w₁ := hcalls.lasts w w₁ hadds.adds hw
    have hcall := keepsThings_callOn hcallee hcalls s first
    have hvisit : visitEach eng invoke callOn (v :: rest) first w =
        (Run.call invoke (callOn s first).callee (callOn s first).this (callOn s first).args >>=
          fun answer => do
            Run.release answer
            visitEach eng invoke callOn rest (first + 1)) w₁ := Run.bind_of_ok hs
    unfold Run.Accounted
    rw [hvisit]
    cases hanswer : Run.call invoke (callOn s first).callee (callOn s first).this
        (callOn s first).args w₁ with
    | error e w₂ =>
      rw [Run.bind_of_error hanswer]
      have hkeeps : w₁.KeepsThings w₂ :=
        (Run.FailsWithin.of_within hcall w₁ e w₂ hanswer hw₁).2
      exact ⟨[.call (callOn s first) (.error e w₂)],
        .step hadds.alike ⟨hanswer, rfl⟩ (.rest (.refl w₂)), .failed (hshows.later hkeeps.targets)⟩
    | ok answer w₂ =>
      obtain ⟨w₃, hrelease⟩ : ∃ w₃, Run.release answer w₂ = .ok () w₃ := ⟨_, rfl⟩
      have hreleased : World.Under I World.KeepsThings w₂ w₃ :=
        (hcalls.keepsThings_release answer).rel_of_ok hrelease
      rw [Run.bind_of_ok hanswer, Run.bind_of_ok hrelease]
      obtain ⟨hw₃, hkeeps⟩ : I w₃ ∧ w₁.KeepsThings w₃ :=
        IsTrans.trans w₁ w₂ w₃ (hcall.rel_of_ok hanswer) hreleased hw₁
      obtain ⟨ds, hds, hturns⟩ := ih (w := w₃) hw₃ (fun u hu =>
        ⟨(hrest u hu).passes, hkeeps.objects u ((hrest u hu).known.congr hadds.alike.objects)⟩)
        (first + 1)
      have hlater : w₃.KeepsThings
          (Outcome.world (visitEach eng invoke callOn rest (first + 1) w₃)) :=
        (keepsThings_visitEach hcallee hcalls rest (first + 1) w₃ hw₃).2
      exact ⟨.call (callOn s first) (.ok answer w₂) :: .release answer :: ds,
        .step hadds.alike ⟨hanswer, rfl⟩ (.step (.refl w₂) hrelease hds),
        hturns.cons ((hshows.later hkeeps.targets).later hlater.targets)⟩

end Visits

/-! ### Functions that visit -/

section Functions

variable {eng : Engine} {invoke : Invoke} {steps : Nat} {target : Value} {this : Script.Value}
  {args : List Script.Value} {items : List Value} {w : World} {I : World → Prop}

/-- A callback of a set is called on each member twice. -/
def memberCall (callback receiver this s : Script.Value) (_ : Nat) : Call :=
  ⟨callback, receiver, [s, s, this]⟩

theorem visit_eq_visitEach (callback receiver : Script.Value) (members : List Value) (i : Nat) :
    OnSet.visit eng invoke this callback receiver members =
      visitEach eng invoke (memberCall callback receiver this) members i := by
  induction members generalizing i with
  | nil => rfl
  | cons v rest ih =>
    unfold OnSet.visit visitEach
    rw [ih (i + 1)]
    rfl

/-- The walk that the arguments of a list function ask for. -/
def Walk.given (this : Script.Value) (args : List Script.Value) : Walk :=
  ⟨Arguments.get args 0, Arguments.receiver args 1, this⟩

/-- A function serves as a callback. -/
theorem Arguments.callback_eq_ok (h : (Arguments.get args 0).isFunction = true) :
    Arguments.callback args 0 w = .ok (Arguments.get args 0) w := by
  unfold Arguments.callback
  simp only [h, if_true]
  rfl

theorem Walk.ofArguments_eq_ok (h : (Arguments.get args 0).isFunction = true) :
    Walk.ofArguments this args w = .ok (.given this args) w :=
  Run.bind_of_ok (Arguments.callback_eq_ok h)

/-- A value is visited as a walk calls its callback on it. -/
theorem visitEach_cons (walk : Walk) (v : Value) (rest : List Value) (i : Nat) :
    visitEach eng invoke walk.callOn (v :: rest) i = (do
      Run.release (← walk.call eng invoke v i)
      visitEach eng invoke walk.callOn rest (i + 1)) := by
  simp only [visitEach, Walk.call, bind_assoc]
  rfl

theorem keepsList_call {walk : Walk}
    (hcalls : CallsWithin I (World.KeepsList target) invoke walk.callback) (v : Value) (i : Nat) :
    (walk.call eng invoke v i).Within (World.Under I (World.KeepsList target)) := by
  refine .bind (hcalls.within_of_adds
    ((eng.within_toScript v).mono fun _ _ => World.AddsHandlers.adds)
    ((eng.within_toScript v).mono fun _ _ h => World.list?_congr h.alike.objects)) fun s => ?_
  exact hcalls.within_call (fun _ _ _ => rfl) _ _

/-- A walk whose callback leaves the list alone visits the items there are. -/
theorem forward_eq_visitEach {walk : Walk}
    (hcalls : CallsWithin I (World.KeepsList target) invoke walk.callback)
    {n i : Nat} (hi : i ≤ items.length) (hsteps : items.length < n + i) (hw : I w)
    (hlist : w.list? target = some items.toArray) :
    forward target
        (fun () v i => do
          Run.release (← walk.call eng invoke v i)
          return Step.next ())
        (fun () => return .undefined) nothing n i () w =
      (do visitEach eng invoke walk.callOn (items.drop i) i; return .undefined :
        Run Script.Value) w := by
  induction n generalizing i w with
  | zero => omega
  | succ n ih =>
    have helement : (elementAt target i).onHalt (nothing ()) w = .ok items[i]? w := by
      simp only [Run.onHalt, elementAt_apply, hlist, List.getElem?_toArray]
    unfold forward
    rw [Run.bind_of_ok helement]
    by_cases hlt : i < items.length
    · rw [List.getElem?_eq_getElem hlt, List.drop_eq_getElem_cons hlt, visitEach_cons, bind_assoc]
      have hkeeps : I (Outcome.world (walk.call eng invoke items[i] i w)) ∧
          w.KeepsList target (Outcome.world (walk.call eng invoke items[i] i w)) :=
        keepsList_call hcalls items[i] i w hw
      cases hcall : walk.call eng invoke items[i] i w with
      | error e w₁ =>
        rw [Run.bind_of_error hcall]
        refine Run.bind_of_error ?_
        simp only [Run.onHalt, Run.bind_of_error hcall]
        rfl
      | ok answer w₁ =>
        obtain ⟨w₂, hrelease, hreleased⟩ : ∃ w₂, Run.release answer w₁ = .ok () w₂ ∧
            w₁.KeepsList target w₂ := ⟨_, rfl, rfl⟩
        rw [hcall] at hkeeps
        have hlist₂ : w₂.list? target = some items.toArray :=
          hreleased.trans (Eq.trans hkeeps.2 hlist)
        have hw₂ : I w₂ :=
          hcalls.lasts w₁ w₂ ((Run.adds_release answer).rel_of_ok hrelease) hkeeps.1
        rw [Run.bind_of_ok hcall, bind_assoc, Run.bind_of_ok hrelease,
          ← ih hlt (by omega) hw₂ hlist₂]
        have hstep : (do
            Run.release (← walk.call eng invoke items[i] i)
            return Step.next () : Run (Step Unit Script.Value)).onHalt (nothing ()) w =
              .ok (.next ()) w₂ := by
          simp only [Run.onHalt, Run.bind_of_ok hcall, Run.bind_of_ok hrelease]
          rfl
        exact (Run.bind_of_ok hstep).trans rfl
    · rw [List.getElem?_eq_none (Nat.le_of_not_lt hlt),
        List.drop_eq_nil_of_le (Nat.le_of_not_lt hlt)]
      rfl

/-- On a list that the callback leaves alone, the callback is called on the items there are. -/
theorem forEach_eq_visitEach (hcallback : (Arguments.get args 0).isFunction = true)
    (hkeeps : CallsWithin I (World.KeepsList target) invoke (Arguments.get args 0))
    (hsteps : items.length < steps) (hw : I w) (hlist : w.list? target = some items.toArray) :
    OnList.forEach eng invoke steps target this args w =
      (do visitEach eng invoke (Walk.given this args).callOn items 0; return .undefined :
        Run Script.Value) w := by
  unfold OnList.forEach
  rw [Run.bind_of_ok (Walk.ofArguments_eq_ok hcallback)]
  have hwalk : CallsWithin I (World.KeepsList target) invoke (Walk.given this args).callback :=
    hkeeps
  exact forward_eq_visitEach hwalk (Nat.zero_le _) (by omega) hw hlist

/-! ### What callbacks are called on -/

section Turns

variable {α β : Type} {callOn : Script.Value → Nat → Call} {vs : List Value} {first : Nat}
  {ds : List Deed}

/-- Which value is given at the end does not matter. -/
theorem VisitsInTurn.of_ok {a : α} (h : VisitsInTurn callOn vs first ds (.ok a w)) (b : β) :
    VisitsInTurn callOn vs first ds (.ok b w) :=
  ⟨h.shown, fun _ _ _ => h.complete a w rfl, nofun⟩

theorem VisitsInTurn.of_error {e : Halt}
    (h : VisitsInTurn callOn vs first ds (.error e w : Outcome α)) :
    VisitsInTurn callOn vs first ds (.error e w : Outcome β) :=
  ⟨h.shown, nofun, fun e' w' hr => by cases hr; exact h.fails e w rfl⟩

/-- What is held at the end does not matter. -/
theorem VisitsInTurn.holdOnly {r : Outcome α} (h : VisitsInTurn callOn vs first ds r)
    (held : List Node) : VisitsInTurn callOn vs first ds (Run.holdOnly held r) := by
  refine ⟨fun i c o hi => ?_, fun a w hr => ?_, fun e w hr => ?_⟩
  · obtain ⟨v, s, hv, hshows, hc⟩ := h.shown i c o hi
    rw [Outcome.world_holdOnly]
    exact ⟨v, s, hv, hshows.later (.of_handlers_eq rfl), hc⟩
  · cases r with
    | ok a' w' => exact h.complete a' w' rfl
    | error e w' => cases hr
  · cases r with
    | ok a' w' => cases hr
    | error e' w' =>
      cases hr
      exact h.fails _ w' rfl

theorem VisitsInTurn.andReturn {x : Run α}
    (hx : x.Accounted invoke w (VisitsInTurn callOn vs first)) (b : β) :
    (do let _ ← x; return b : Run β).Accounted invoke w (VisitsInTurn callOn vs first) := by
  refine .bind hx (fun ds a w₁ h => .pure ?_) fun ds e w₁ h => h.of_error
  rw [List.append_nil]
  exact h.of_ok b

end Turns

variable (hthings : CallsWithin I World.KeepsThings invoke (Arguments.get args 0))
  (hcallback : (Arguments.get args 0).isFunction = true) (hw : I w)
  (hcross : ∀ v ∈ items, w.Crosses eng v)
include hthings hcallback hw hcross

/-- The callback of a list, if it leaves the list alone, is called on the items in their order. -/
theorem visitsInTurn_list
    (hkeeps : CallsWithin I (World.KeepsList target) invoke (Arguments.get args 0))
    (hsteps : items.length < steps) (hlist : w.list? target = some items.toArray) :
    (OnList.forEach eng invoke steps target this args).Accounted invoke w
      (VisitsInTurn (Walk.given this args).callOn items 0) := by
  have hcallee (s : Script.Value) (i : Nat) :
      ((Walk.given this args).callOn s i).callee = Arguments.get args 0 := rfl
  unfold Run.Accounted
  rw [forEach_eq_visitEach hcallback hkeeps hsteps hw hlist]
  exact VisitsInTurn.andReturn (visitsInTurn_visitEach hcallee hthings hw hcross 0) _

/-- The callback of a set is called on the members there were at the start, in their order. -/
theorem visitsInTurn_set (hset : w.set? target = some items) :
    (OnSet.forEach eng invoke target this args).Accounted invoke w
      (VisitsInTurn (memberCall (Arguments.get args 0) (Arguments.receiver args 1) this)
        items 0) := by
  have hcallee (s : Script.Value) (i : Nat) :
      (memberCall (Arguments.get args 0) (Arguments.receiver args 1) this s i).callee =
        Arguments.get args 0 := rfl
  refine .scope (.mono ?_ fun ds r h => VisitsInTurn.holdOnly h w.held)
  refine .bind_of_ok (Arguments.callback_eq_ok hcallback) (.bind_of_ok
    (setMembers_eq_ok_of_set? hset) (.bind_quiet (Run.quiet_hold _) (fun _ w₁ halike hheld => ?_)
    fun _ _ _ h => by cases h))
  have hw₁ : I w₁ := hthings.lasts w w₁ ((Run.adds_hold _).rel_of_ok hheld) hw
  rw [visit_eq_visitEach _ _ items 0]
  exact VisitsInTurn.andReturn (visitsInTurn_visitEach hcallee hthings hw₁
    (fun v hv => ⟨(hcross v hv).passes, (hcross v hv).known.congr halike.objects⟩) 0) _

end Functions

end Membrane
