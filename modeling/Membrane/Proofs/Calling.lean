import Membrane.Dispatch
import Membrane.Proofs.Crossing

/-!
# Calling a callable

A call is entered in the ledger, and what is called, the receiver and the arguments are held until
it ends. In between the callable does what it does in the world so reached. So a relation of worlds
that the ledger and what is held do not matter to is kept by a call if it is kept by the callable.

## Main definitions

* `World.entered`: the world in which a callable starts.

## Main results

* `Engine.call_function`: a call of a callable.
* `Engine.call_notFunction`: a call of anything else.
* `Run.within_call`, `Engine.related_call`: a relation of worlds that a call keeps.
* `Engine.callGroup_of_builtIn`: a call of methods that are built in.
-/

namespace Membrane

/-- The world in which a callable starts: the call is in the ledger, and what is called, the
receiver and the arguments are held. -/
def World.entered (w : World) (c : Call) : World :=
  { w with
    ledger := { w.ledger with calls := c :: w.ledger.calls }
    held := (c.callee :: c.this :: c.args).filterMap Script.Value.node? ++ w.held }

/-- A relation of worlds that the ledger and what is held do not matter to is kept by a call if it
is kept by what is called. -/
theorem Run.within_call {R : World → World → Prop} [IsPreorder World R] {invoke : Invoke}
    {callee this : Script.Value} {args : List Script.Value}
    (hrest : ∀ w ledger held, R w { w with ledger := ledger, held := held })
    (hinvoke : ∀ r, callee = .function r → (invoke r this args).Within R) :
    (Run.call invoke callee this args).Within R := by
  intro w
  cases callee with
  | function r =>
    change R w (Outcome.world (Run.holdOnly w.held
      (invoke r this args (w.entered ⟨.function r, this, args⟩))))
    rw [Outcome.world_holdOnly]
    have hbody := hinvoke r rfl (w.entered ⟨.function r, this, args⟩)
    exact IsTrans.trans _ _ _ (IsTrans.trans _ _ _ (hrest w _ _) hbody) (hrest _ _ w.held)
  | _ => exact hrest w _ w.held

namespace Engine

variable {eng : Engine} {f : Ref .function} {k : Callable} {callee this : Script.Value}
  {args : List Script.Value} {w : World}

/-- A callable that is called does what it does in the world so reached. -/
theorem call_function (eng : Engine) (this : Script.Value) (args : List Script.Value) (n : Nat)
    (hf : w.functions.get? f = some k) :
    eng.call (n + 1) (.function f) this args w =
      Run.holdOnly w.held
        (eng.perform (eng.invoke n) n k this args (w.entered ⟨.function f, this, args⟩)) := by
  have hinvoke : eng.invoke (n + 1) f this args (w.entered ⟨.function f, this, args⟩) =
      eng.perform (eng.invoke n) n k this args (w.entered ⟨.function f, this, args⟩) := by
    have hcell : (w.entered ⟨.function f, this, args⟩).functions.get? f = some k := hf
    unfold invoke
    rw [Run.get_bind, hcell]
  exact congrArg (Run.holdOnly w.held) hinvoke

/-- A value that is not callable is not called, but the attempt counts. -/
theorem call_notFunction (eng : Engine) (depth : Nat) (this : Script.Value)
    (args : List Script.Value) (hcallee : callee.isFunction = false) (w : World) :
    ∃ e ledger, eng.call depth callee this args w = .error e { w with ledger := ledger } := by
  cases callee with
  | function f => cases hcallee
  | _ => exact ⟨_, _, rfl⟩

/-- A relation of worlds that the ledger and what is held do not matter to is kept by a call if it
is kept by what is called. -/
theorem related_call {R : World → World → Prop} [IsPreorder World R] {depth : Nat}
    (hrest : ∀ w ledger held, R w { w with ledger := ledger, held := held })
    (hcallee : ∀ f, callee = .function f → ∃ k, w.functions.get? f = some k ∧
      ∀ n, (eng.perform (eng.invoke n) n k this args).Within R) :
    R w (Outcome.world (eng.call depth callee this args w)) := by
  cases hfunction : callee.isFunction with
  | false =>
    obtain ⟨e, ledger, hcall⟩ := eng.call_notFunction depth this args hfunction w
    rw [hcall]
    exact hrest w ledger w.held
  | true =>
    cases callee with
    | function f =>
      obtain ⟨k, hf, hk⟩ := hcallee f rfl
      cases depth with
      | zero => exact hrest w _ w.held
      | succ n =>
        rw [eng.call_function this args n hf, Outcome.world_holdOnly]
        have hbody := hk n (w.entered ⟨.function f, this, args⟩)
        exact IsTrans.trans _ _ _ (IsTrans.trans _ _ _ (hrest w _ _) hbody) (hrest _ _ w.held)
    | _ => cases hfunction

/-- A call of methods that are built in: the arguments are carried to the host, the operation for as
many of them is run, and what it gives is carried to the script. -/
theorem callGroup_of_builtIn (eng : Engine) {g : Descriptor.MethodGroup}
    {builtIn? : Nat → Option Host.BuiltIn}
    (hselect : ∀ n, g.select? n = (builtIn? n).map (Host.Library.method g.name n))
    (receiver : Host.Value) (args : List Script.Value) :
    eng.callGroup g receiver args = eng.toHostAll args >>= fun vs =>
      (Run.orRaise (builtIn? vs.length) (.noOverload g.name vs.length) >>= fun b =>
        b.run eng.hasher receiver vs) >>= eng.toScript := by
  refine congrArg (eng.toHostAll args >>= ·) (funext fun vs => ?_)
  rw [hselect]
  cases builtIn? vs.length with
  | none => rfl
  | some b => rfl

end Engine

end Membrane
