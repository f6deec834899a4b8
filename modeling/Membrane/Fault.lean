/-!
# Faults

What a script or the embedder can be told went wrong, by cause. Scripts see the message, and an
error constructor that depends on the kind alone.

Source: specification, section 6, error templates, and section 7.

## Main definitions

* `Fault.Kind`, `Fault`.
* `Fault.kind`, `Fault.message`, `Fault.constructorName`, `Fault.text`.
-/

namespace Membrane

/-- The kinds of faults. -/
inductive Fault.Kind where
  | type
  | range
  | generic
  | internal
  | configuration
  deriving DecidableEq

/-- The causes of faults. Where a cause names a value, it carries the value's string form. -/
inductive Fault where
  /-- Raised by a native function or a host method. -/
  | raised (kind : Fault.Kind) (text : String)
  /-- A value was called that is not callable. -/
  | notFunction (value : String)
  /-- An element was to be replaced at an index outside the list. -/
  | invalidIndex (index : Int)
  /-- Elements were to be removed from a start outside the list. -/
  | startOutOfRange (start : Int)
  /-- An empty list was folded without an initial value. -/
  | emptyReduce
  /-- No method of a group takes the number of arguments. -/
  | noOverload (name : String) (count : Nat)
  /-- A built-in method was given a receiver of another shape. -/
  | wrongReceiver (receiver : String) (expected : String)
  /-- A list method was given an index outside the list. -/
  | indexOutOfBounds (index : String) (length : Nat)
  /-- A script's own function was bound to a target of another shape. -/
  | wrongTarget (target : String) (expected : String)
  /-- Null was to be proxied. -/
  | nullTarget
  /-- A value without a class was to be described. -/
  | indescribable (value : String)
  /-- A trap was called after its handler had been let go. -/
  | released
  /-- A comparison failed while sorting; only its message is kept. -/
  | failedComparison (text : String)
  /-- A configuration text was refused. -/
  | badConfiguration
  deriving DecidableEq

namespace Fault

/-- The kind of a fault. -/
def kind : Fault → Kind
  | raised k _ => k
  | notFunction _ | emptyReduce | noOverload _ _ | wrongReceiver _ _ => .type
  | invalidIndex _ | startOutOfRange _ | indexOutOfBounds _ _ => .range
  | wrongTarget _ _ | nullTarget | indescribable _ | released => .internal
  | failedComparison _ => .generic
  | badConfiguration => .configuration

/-- The message of a fault, without its kind. -/
def message : Fault → String
  | raised _ text => text
  | notFunction value => value ++ " is not a function"
  | invalidIndex index => "Invalid index : " ++ toString index
  | startOutOfRange start => "Start " ++ toString start ++ " is out of range"
  | emptyReduce => "Reduce of empty array with no initial value"
  | noOverload name count =>
    "No overload of " ++ name ++ "() accepts " ++ toString count ++ " arguments"
  | wrongReceiver receiver expected =>
    "Receiver " ++ receiver ++ " is not an instance of " ++ expected
  | indexOutOfBounds index length =>
    "Index " ++ index ++ " out of bounds for length " ++ toString length
  | wrongTarget target expected => "Target " ++ target ++ " must be a " ++ expected
  | nullTarget => "Proxy target must not be null"
  | indescribable value => "Cannot describe " ++ value
  | released => "Proxy handler has been released"
  | failedComparison text => text
  | badConfiguration => "not a configuration"

/-- The name of the error constructor that scripts see. -/
def constructorName (f : Fault) : String :=
  match f.kind with
  | .type => "TypeError"
  | .range => "RangeError"
  | .generic | .internal | .configuration => "Error"

/-- The message with the kind in front. -/
def text (f : Fault) : String :=
  match f.kind with
  | .type => "TypeError: " ++ f.message
  | .range => "RangeError: " ++ f.message
  | .generic => "Error: " ++ f.message
  | .internal => "InternalError: " ++ f.message
  | .configuration => "Invalid configuration: " ++ f.message

end Fault

end Membrane
