import Membrane.Data.Names
import Membrane.Prototype.Names

/-!
# Configuration

Which host methods give way to the functions of the script's own collections, and how methods are
recognised as property accessors.

Source: specification, section 9.

## Main definitions

* `Config`, with `Config.standard` and `Config.hostFirst`.
* `Config.overridesFor`: the method names that give way for a shape.
-/

namespace Membrane

/-- The settings of a membrane. -/
structure Config where
  /-- Names of list methods that give way to list functions. -/
  listOverrides : List String
  /-- Names of set methods that give way to set functions. -/
  setOverrides : List String
  /-- Names of map methods that scripts do not see. -/
  mapOverrides : List String
  /-- Whether accessor methods answer for properties. -/
  accessors : Bool
  /-- What the names of methods that read a property start with. -/
  getterPrefixes : List String
  /-- What the names of methods that write a property start with. -/
  setterPrefixes : List String
  deriving DecidableEq

namespace Config

/-- The settings in effect unless others are given: every name of a list or set function is claimed
by it. -/
def standard : Config :=
  ⟨Names.ofList (Prototype.ListFunction.all.map Prototype.ListFunction.name),
    Names.ofList (Prototype.SetFunction.all.map Prototype.SetFunction.name),
    [], true, ["get", "is"], ["set"]⟩

/-- The settings under which a host method always wins. -/
def hostFirst : Config := { standard with listOverrides := [], setOverrides := [] }

/-- The method names that give way for a shape. -/
def overridesFor (c : Config) : Host.Shape → List String
  | .list => c.listOverrides
  | .set => c.setOverrides
  | .map => c.mapOverrides
  | .plain | .array => []

end Config

end Membrane
