import Membrane.Host.Operations

/-!
# The engine

The engine that embeds a membrane decides the configuration, which values may cross, and what the
codes of native functions and host methods mean. Crossing itself is fixed: primitives cross by
value, host objects cross as proxies and come back as themselves, script arrays are copied into host
lists, and other script values are held by the host as they are.

What runs a callable is a parameter wherever callables are called, so what is said of a function
that takes a callback holds of every callback.

Source: specification, section 2, "Engine seam" and "Conversion helpers", section 4.1 for the cache
of descriptors and section 5 for releases.

## Main definitions

* `Invoke`, `Engine`, `Engine.direct`.
* `Engine.describe`, `Engine.descriptorOf`: descriptors, built once for each class and mode.
* `Engine.newHandler`, `Engine.toScript`, `Engine.toHost`: crossing.
* `Engine.callMethod`: a host method on a receiver.
* `Run.call`, `Run.release`: the ledger.
-/

namespace Membrane

open Host (Method)

/-- What runs a callable on a receiver and arguments. -/
abbrev Invoke := Ref .function → Script.Value → List Script.Value → Run Script.Value

/-- The decisions of the embedding engine. -/
structure Engine where
  /-- The settings in effect. -/
  config : Config
  /-- Why a host value may not cross to the script, if it may not. -/
  refusesHost : World → Host.Value → Option Fault
  /-- Why a script value may not cross to the host, if it may not. -/
  refusesScript : World → Script.Value → Option Fault
  /-- The meaning of the codes of native functions, given what runs callables, the captured values,
  the receiver and the arguments. -/
  native : Invoke → Nat → List Script.Value → Script.Value → List Script.Value → Run Script.Value
  /-- The meaning of the codes of host methods, given the receiver and the arguments. -/
  method : Nat → Host.Value → List Host.Value → Run Host.Value
  /-- What makes hashes. -/
  hasher : Host.Hasher := .standard

/-- What a native function is worth as a code without meaning. -/
def Engine.noNative : Invoke → Nat → List Script.Value → Script.Value → List Script.Value →
    Run Script.Value :=
  fun _ _ _ _ _ => pure .undefined

/-- What a host method is worth as a code without meaning. -/
def Engine.noMethod : Nat → Host.Value → List Host.Value → Run Host.Value := fun _ _ _ => pure .null

/-- The engine that lets every value cross. -/
def Engine.direct (config : Config) : Engine :=
  ⟨config, fun _ _ => none, fun _ _ => none, Engine.noNative, Engine.noMethod, .standard⟩

instance : Inhabited Engine := ⟨Engine.direct Config.standard⟩

namespace Run

/-- Enters a released value in the ledger. -/
def release (v : Script.Value) : Run Unit :=
  modify fun w => { w with ledger := { w.ledger with released := v :: w.ledger.released } }

/-- Releases the values of a list, first to last. -/
def releaseAll (vs : List Script.Value) : Run Unit := vs.forM release

/-- Enters a call in the ledger. -/
def enterCall (c : Call) : Run Unit :=
  modify fun w => { w with ledger := { w.ledger with calls := c :: w.ledger.calls } }

/-- Calls a script value. The call counts even if the value is not callable. What is called, the
receiver and the arguments are held until it ends. -/
def call (invoke : Invoke) (callee this : Script.Value) (args : List Script.Value) :
    Run Script.Value := do
  enterCall ⟨callee, this, args⟩
  match callee with
  | .function r => scope do
    hold ((callee :: this :: args).filterMap Script.Value.node?)
    invoke r this args
  | v => raiseAbout (.script v) .notFunction

end Run

namespace Engine

variable (eng : Engine)

/-- The descriptor of a class in one mode, built on first use and kept. -/
def describe (c : Host.Class) (isStatic : Bool) : Run Descriptor := do
  let w ← get
  match w.descriptors.find? fun d => d.isStatic == isStatic && decide (d.target = c) with
  | some d => return d
  | none =>
    let d := Descriptor.build eng.config c isStatic
    set { w with descriptors := d :: w.descriptors }
    return d

/-- The descriptor of a proxied value: a class reference shows the class it refers to, all else its
own class. -/
def descriptorOf (target : Host.Value) : Run Descriptor := do
  let w ← get
  match w.classRef? target with
  | some c => eng.describe c true
  | none =>
    match w.class? target with
    | some c => eng.describe c false
    | none => Run.raiseAbout target .indescribable

/-- Makes a handler for a value other than null. -/
def newHandler (target : Host.Value) : Run (Ref .handler) := do
  if target.isNull then Run.raise .nullTarget
  let d ← eng.descriptorOf target
  modifyGet fun w =>
    (w.handlers.next, { w with handlers := w.handlers.alloc ⟨target, d, none, none⟩ })

end Engine

/-- The narrowest script primitive of a host primitive or null. -/
def Host.Value.scriptPrimitive? : Host.Value → Option Script.Value
  | .null => some .null
  | .boolean b => some (.boolean b)
  | .byte n => some (.integer (Int32.ofInt n.toInt))
  | .short n => some (.integer (Int32.ofInt n.toInt))
  | .integer n => some (.integer n)
  | .long n => some (.long n)
  | .float x => some (.double (x.convert _))
  | .double x => some (.double x)
  | .character c => some (.string (String.ofList [c]))
  | .bigInteger n => some (.bigInt n)
  | .string s => some (.string s)
  | .object _ | .script _ => none

namespace Engine

variable (eng : Engine)

/-- Carries a host value to the script, refusals aside. -/
def carryToScript (v : Host.Value) : Run Script.Value :=
  match v.scriptPrimitive?, v with
  | some s, _ => return s
  | none, .script s => return s
  | none, v => return .proxy (← eng.newHandler v)

/-- Carries a host value to the script. -/
def toScript (v : Host.Value) : Run Script.Value := do
  match eng.refusesHost (← get) v with
  | some f => Run.raise f
  | none => eng.carryToScript v

end Engine

/-- Carries a script value to the host. Arrays in arrays are copied to the given depth; an array
that contains itself has no copy. -/
def Script.Value.carryToHost : Nat → Script.Value → Run Host.Value
  | n, v =>
    match v with
    | .undefined | .null => return .null
    | .boolean b => return .boolean b
    | .integer i => return .integer i
    | .long i => return .long i
    | .double x => return .double x
    | .bigInt i => return .bigInteger i
    | .string s => return .string s
    | .proxy r => do return ((← get).handlers.get? r).elim .null Handler.target
    | .array r =>
      match n with
      | 0 => throw .exhausted
      | n + 1 => do
        let items := ((← get).arrays.get? r).getD []
        Run.newList (← items.mapM (carryToHost n))
    | .symbol _ | .object _ | .function _ => return .script v

namespace Engine

variable (eng : Engine)

/-- Carries a script value to the host. Only the value itself can be refused, not what an array
holds. -/
def toHost (v : Script.Value) : Run Host.Value := do
  let w ← get
  match eng.refusesScript w v with
  | some f => Run.raise f
  | none => v.carryToHost (w.arrays.size + 1)

/-- Carries script values to the host, first to last. -/
def toHostAll (vs : List Script.Value) : Run (List Host.Value) := vs.mapM eng.toHost

/-- Carries host values to the script, first to last. -/
def toScriptAll (vs : List Host.Value) : Run (List Script.Value) := vs.mapM eng.toScript

/-- Carries host values to the script as the items of a fresh array. -/
def toScriptArray (vs : List Host.Value) : Run Script.Value := do
  Run.newScriptArray (← eng.toScriptAll vs)

/-- Runs a host method. -/
def callMethod (m : Method) (receiver : Host.Value) (args : List Host.Value) : Run Host.Value :=
  match m.body with
  | .builtIn b => b.run eng.hasher receiver args
  | .custom code => eng.method code receiver args

end Engine

end Membrane
