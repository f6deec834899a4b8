import Membrane.Proofs.HandlerParts
import Membrane.Proofs.Members

/-!
# Captured keys

A handler captures the keys of its target when they are first asked for, each of them once. Handlers
are changed in no other way but that their trap callables are made, and new ones have captured
nothing. So whichever traps are called, on whichever handlers, no handler ever has captured a key
twice, provided that the methods of the host leave the handlers alone.

## Main definitions

* `World.CapturesOnce`: no handler has captured a key twice.
* `World.KeepsCaptures`: what may happen to captured keys.
* `TrapCall`, `TrapCall.runAll`: calls of traps, one after the other.

## Main results

* `World.CapturesOnce.of_uniqueKeys`: the keys asked for are different.
* `Run.keepsCaptures_trapFunctions`: making the trap callables of a handler.
* `Engine.keepsCaptures_callTrap`, `TrapCall.capturesOnce_runAll`: one call of a trap, and any
  number of them.
-/

namespace Membrane

open Host (Value)

/-- The keys a handler has captured, if any, are different. -/
def Handler.CapturesOnce (h : Handler) : Prop :=
  ∀ captured, h.uniqueKeys = some captured → captured.Nodup

/-- No handler has captured a key twice. -/
def World.CapturesOnce (w : World) : Prop :=
  ∀ r h, w.handlers.get? r = some h → h.CapturesOnce

/-- Handlers that have captured no key twice stay so, and so are those that are new. -/
def World.KeepsCaptures (w w' : World) : Prop := w.CapturesOnce → w'.CapturesOnce

instance : IsPreorder World World.KeepsCaptures where
  refl _ := id
  trans _ _ _ h h' honce := h' (h honce)

/-! ### Capturing -/

/-- The keys that are captured are different. -/
theorem nodup_capturedKeys {h : Handler} {keys : List String} {w w' : World}
    (hrun : Run.capturedKeys h w = .ok keys w') : keys.Nodup := by
  have hdistinct {texts : Run (List String)}
      (hrun : (do return Members.ofList (← texts) : Run (List String)) w = .ok keys w') :
      keys.Nodup := by
    obtain ⟨texts, w₁, -, hrun⟩ := Run.bind_eq_ok hrun
    cases hrun
    exact (Members.distinct_ofList _).nodup
  unfold Run.capturedKeys at hrun
  rw [Run.get_bind] at hrun
  cases hdata : w.data? h.target with
  | none =>
    rw [hdata] at hrun
    exact @hdistinct (pure _) hrun
  | some data =>
    rw [hdata] at hrun
    cases data with
    | map entries => exact hdistinct hrun
    | set members => exact hdistinct hrun
    | _ => exact @hdistinct (pure _) hrun

theorem looks_capturedKeys (h : Handler) : (Run.capturedKeys h).Looks :=
  Run.Looks.holdsOfParts.capturedKeys (fun _ => rfl) h

/-- Asked for its keys, a handler captures them, or nothing happens. -/
theorem Run.uniqueKeys_cases (r : Ref .handler) (w : World) :
    Outcome.world (Run.uniqueKeys r w) = w ∨ ∃ h keys, w.handlers.get? r = some h ∧
      h.uniqueKeys = none ∧ Run.capturedKeys h w = .ok keys w ∧
      Run.uniqueKeys r w = .ok keys { w with
        handlers := w.handlers.modify r fun h => { h with uniqueKeys := some keys } } := by
  unfold Run.uniqueKeys
  rw [Run.get_bind]
  cases hr : w.handlers.get? r with
  | none => exact .inl rfl
  | some h =>
    cases hcaptured : h.uniqueKeys with
    | some captured =>
      simp only [hcaptured]
      exact .inl rfl
    | none =>
      simp only [hcaptured]
      cases hcapture : Run.capturedKeys h w with
      | error e w₁ =>
        obtain rfl : w₁ = w := (looks_capturedKeys h).world_eq_of_error hcapture
        rw [Run.bind_of_error hcapture]
        exact .inl rfl
      | ok keys w₁ =>
        obtain rfl : w₁ = w := (looks_capturedKeys h).world_eq_of_ok hcapture
        exact .inr ⟨h, keys, rfl, hcaptured, hcapture, Run.bind_of_ok hcapture⟩

/-- Keys that are not there are not captured. -/
theorem Run.uniqueKeys_eq_error {r : Ref .handler} {e : Halt} {w w' : World}
    (hrun : Run.uniqueKeys r w = .error e w') : w' = w := by
  obtain hworld | ⟨h, keys, -, -, -, hok⟩ := Run.uniqueKeys_cases r w
  · rw [hrun] at hworld
    exact hworld
  · cases hrun.symm.trans hok

namespace World

variable {w w' : World} {r : Ref .handler}

theorem KeepsCaptures.of_handlers_eq (h : w'.handlers = w.handlers) : w.KeepsCaptures w' := by
  intro honce
  unfold CapturesOnce
  rw [h]
  exact honce

theorem CapturesOnce.of_modify {change : Handler → Handler} (honce : w.CapturesOnce)
    (h : w'.handlers = w.handlers.modify r change)
    (hchange : ∀ h, w.handlers.get? r = some h → (change h).CapturesOnce) : w'.CapturesOnce := by
  intro r' h' hr'
  rw [h] at hr'
  by_cases hrr' : r = r'
  · subst hrr'
    rw [Store.get?_modify_self] at hr'
    obtain ⟨h₀, hr, rfl⟩ := Option.map_eq_some_iff.1 hr'
    exact hchange h₀ hr
  · rw [Store.get?_modify_of_ne _ _ hrr'] at hr'
    exact honce r' h' hr'

/-- The keys asked for are different, be it the first time or later. -/
theorem CapturesOnce.of_uniqueKeys (honce : w.CapturesOnce) {keys : List String}
    (hrun : Run.uniqueKeys r w = .ok keys w') : keys.Nodup ∧ w'.CapturesOnce := by
  unfold Run.uniqueKeys at hrun
  rw [Run.get_bind] at hrun
  cases hr : w.handlers.get? r with
  | none =>
    rw [hr] at hrun
    cases hrun
    exact ⟨.nil, honce⟩
  | some h =>
    cases hcaptured : h.uniqueKeys with
    | some captured =>
      simp only [hr, hcaptured] at hrun
      cases hrun
      exact ⟨honce r h hr _ hcaptured, honce⟩
    | none =>
      simp only [hr, hcaptured] at hrun
      obtain ⟨captured, w₁, hcapture, hrest⟩ := Run.bind_eq_ok hrun
      obtain rfl : w₁ = w := (looks_capturedKeys h).world_eq_of_ok hcapture
      cases hrest
      have hnodup := nodup_capturedKeys hcapture
      refine ⟨hnodup, honce.of_modify rfl fun h' hr' captured' hc => ?_⟩
      cases hc
      exact hnodup

theorem keepsCaptures_changeData (w : World) (v : Value) (change : Host.Data → Host.Data) :
    w.KeepsCaptures (w.changeData v change) :=
  .of_handlers_eq (by rw [rest_changeData])

/-- No write touches what has been captured. -/
theorem allowsWrites_keepsCaptures : AllowsWrites KeepsCaptures where
  changeData w v change _ := w.keepsCaptures_changeData v change
  setField w v name u := .of_handlers_eq (congrArg World.handlers (w.rest_setField v name u) :)
  putStatic _ _ _ _ := .of_handlers_eq rfl

end World

/-! ### Traps -/

namespace Run

theorem keepsCaptures_newFunction (c : Callable) :
    (newFunction c).Within World.KeepsCaptures :=
  fun _ => .of_handlers_eq rfl

theorem keepsCaptures_uniqueKeys (r : Ref .handler) :
    (uniqueKeys r).Within World.KeepsCaptures := by
  intro w honce
  cases hrun : uniqueKeys r w with
  | ok keys w' => exact (honce.of_uniqueKeys hrun).2
  | error e w' => exact Run.uniqueKeys_eq_error hrun ▸ honce

theorem keepsCaptures_trapFunctions (r : Ref .handler) :
    (trapFunctions r).Within World.KeepsCaptures := by
  intro w honce
  unfold trapFunctions
  rw [get_bind]
  cases (w.handlers.get? r).bind Handler.traps with
  | some traps => exact honce
  | none => exact honce.of_modify rfl (honce r)

end Run

namespace Engine

variable (eng : Engine)

/-- A new handler has captured nothing. -/
theorem keepsCaptures_newHandler (target : Value) :
    (eng.newHandler target).Within World.KeepsCaptures := by
  refine eng.within_newHandler_of (fun _ _ => id) fun w d honce r h hr => ?_
  obtain hr | rfl := Store.get?_or_eq_of_alloc hr
  · exact honce r h hr
  · intro captured hcaptured
    cases hcaptured

theorem keepsCaptures_toScript (v : Value) : (eng.toScript v).Within World.KeepsCaptures :=
  eng.within_toScript_of eng.keepsCaptures_newHandler v

theorem keepsCaptures_toHost (v : Script.Value) : (eng.toHost v).Within World.KeepsCaptures :=
  fun w => .of_handlers_eq (eng.within_toHost v w).handlers_eq

section Traps

variable {eng}
  (hmethod : ∀ code receiver args, (eng.method code receiver args).Within World.KeepsCaptures)
include hmethod

/-- No part of a handler's answers captures a key twice. -/
theorem keepsCaptures_parts (h : Handler) :
    h.HoldsOfParts eng fun _ x => x.Within World.KeepsCaptures :=
  World.allowsWrites_keepsCaptures.parts hmethod eng.keepsCaptures_toScript eng.keepsCaptures_toHost
    Run.keepsCaptures_newFunction Run.keepsCaptures_uniqueKeys h

/-- A call of a trap captures no key twice. -/
theorem keepsCaptures_callTrap (r : Ref .handler) (t : Trap) (args : List Script.Value) :
    (eng.callTrap r t args).Within World.KeepsCaptures :=
  within_callTrap (keepsCaptures_parts hmethod) (fun _ _ => .of_handlers_eq rfl) r t args

end Traps

end Engine

/-- A call of a trap of a handler. -/
structure TrapCall where
  /-- The handler. -/
  handler : Ref .handler
  /-- The trap. -/
  trap : Trap
  /-- The arguments. -/
  args : List Script.Value

/-- Calls traps one after the other. A call that fails does not keep the script from the next. -/
def TrapCall.runAll (eng : Engine) (calls : List TrapCall) (w : World) : World :=
  calls.foldl (fun w c => Outcome.world (eng.callTrap c.handler c.trap c.args w)) w

/-- Whichever traps are called on whichever handlers, no handler has captured a key twice, as long
as the methods of the host leave it so. -/
theorem TrapCall.capturesOnce_runAll {eng : Engine}
    (hmethod : ∀ code receiver args, (eng.method code receiver args).Within World.KeepsCaptures)
    (calls : List TrapCall) {w : World} (honce : w.CapturesOnce) :
    (runAll eng calls w).CapturesOnce := by
  induction calls generalizing w with
  | nil => exact honce
  | cons c calls ih =>
    exact ih (Engine.keepsCaptures_callTrap hmethod c.handler c.trap c.args w honce)

end Membrane
