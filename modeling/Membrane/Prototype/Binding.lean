import Membrane.Prototype.ListFunction
import Membrane.Prototype.SetFunction

/-!
# Properties that prototype functions give

Reading a prototype property of a target gives a callable bound to that target, except for the
number of elements, which is given at once.

Source: specification, section 3, "PolyfillFunction", and section 4.3.

## Main definitions

* `Prototype.WrapperFunction.run`: the functions of wrapped primitives.
* `Prototype.Function.run`: a bound function called.
* `Prototype.Function.read`: the property of a target.
-/

namespace Membrane.Prototype

/-- The function of a name, on the primitive it is bound to. -/
def WrapperFunction.run (f : WrapperFunction) (eng : Engine) (target : Host.Value) :
    Run Script.Value :=
  match f with
  | .toJSON =>
    match target.scriptPrimitive? with
    | some v => return v
    | none => Run.raiseAbout target fun s => .wrongTarget s "primitive"
  | .valueOf => eng.toScript target

namespace Function

/-- The function, on the target it is bound to. -/
def run (f : Function) (eng : Engine) (invoke : Invoke) (steps : Nat) (target : Host.Value)
    (this : Script.Value) (args : List Script.Value) : Run Script.Value :=
  match f with
  | .ofList f => f.run eng invoke steps target this args
  | .ofSet f => f.run eng invoke target this args
  | .ofWrapper f => f.run eng target

/-- The property of a target. -/
def read (f : Function) (target : Host.Value) : Run Script.Value :=
  match f with
  | .ofList .length | .ofList .size => OnList.length target
  | .ofSet .size => OnSet.size target
  | f => Run.newFunction (.prototype f target)

end Function

end Membrane.Prototype
