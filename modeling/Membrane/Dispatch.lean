import Membrane.Holding
import Membrane.Proxy.Handler

/-!
# Running callables

What every kind of callable does, and the loop that lets callables call each other. Nesting is
bounded: a computation that calls deeper than it may is cut off.

Source: specification, section 2, "Engine seam" and control flow.

## Main definitions

* `Engine.callGroup`, `Engine.callTrap`: calls of host methods and traps.
* `Engine.perform`: one callable, given what runs those it calls.
* `Engine.invoke`: callables, to a given depth.
* `Engine.call`: a call of a script value.
-/

namespace Membrane

namespace Engine

variable (eng : Engine)

/-- Calls the method of a group that takes as many arguments as are given. Static methods have no
receiver. -/
def callGroup (group : Descriptor.MethodGroup) (receiver : Host.Value) (args : List Script.Value) :
    Run Script.Value := do
  let args ← eng.toHostAll args
  let method ← Run.orRaise (group.select? args.length) (.noOverload group.name args.length)
  let result ← eng.callMethod method (if method.isStatic then .null else receiver) args
  eng.toScript result

/-- Calls a trap of a handler that is still held. The first argument stands for the target and is
not used. -/
def callTrap (r : Ref .handler) (t : Trap) (args : List Script.Value) : Run Script.Value := do
  let w ← get
  match (w.handlers.get? r).filter fun _ => w.holds r.node with
  | none => Run.raise .released
  | some h =>
    match t with
    | .get => eng.getProperty h (Arguments.get args 1)
    | .deleteProperty => return .boolean (← Run.deleteProperty h.target (Arguments.get args 1))
    | .has => return .boolean (← eng.hasProperty h (Arguments.get args 1))
    | .ownKeys => do Run.newScriptArray ((← Run.ownKeys r).map .string)
    | .set => return .boolean (← eng.setProperty h (Arguments.get args 1) (Arguments.get args 2))

/-- What a callable does, given what runs the callables it calls and how many steps its walks may
take. -/
def perform (invoke : Invoke) (steps : Nat) (c : Callable) (this : Script.Value)
    (args : List Script.Value) : Run Script.Value :=
  match c with
  | .native _ code captured => eng.native invoke code captured this args
  | .prototype f target => f.run eng invoke steps target this args
  | .methods group receiver => eng.callGroup group receiver args
  | .next state => eng.advance state
  | .itself => return this
  | .iterate target kind => Run.newIterator target kind
  | .toPrimitive target => Run.toPrimitive target
  | .trap r t => eng.callTrap r t args

/-- Runs a callable. The first argument bounds how deep callables call each other, and how many
steps each walk takes. -/
def invoke : Nat → Invoke
  | 0, _, _, _ => throw .exhausted
  | n + 1, r, this, args => do
    match (← get).functions.get? r with
    | some c => eng.perform (invoke n) n c this args
    | none => Run.raise (.notFunction "undefined")

/-- Calls a script value. -/
def call (depth : Nat) (callee this : Script.Value) (args : List Script.Value) : Run Script.Value :=
  Run.call (eng.invoke depth) callee this args

end Engine

end Membrane
