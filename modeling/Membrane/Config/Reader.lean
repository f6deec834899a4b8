import Membrane.Config.Basic
import Membrane.Config.Json

/-!
# Configuration from JSON text

A configuration is an object with any of six members, or an array of up to six values in their
order. What is missing keeps its standard setting and other members are ignored, but a member may
not be repeated and must have its type; null is no substitute.

Source: specification, section 9.

## Main definitions

* `Config.ofJson?`: the configuration that a text describes.
-/

namespace Membrane.Config

/-- The settings in the order of their array form. -/
inductive Setting where
  | listOverrides
  | setOverrides
  | mapOverrides
  | accessors
  | getterPrefixes
  | setterPrefixes
  deriving DecidableEq

namespace Setting

/-- All settings, in the order of their array form. -/
def all : List Setting :=
  [listOverrides, setOverrides, mapOverrides, accessors, getterPrefixes, setterPrefixes]

/-- The member name of a setting. -/
def name : Setting → String
  | listOverrides => "listOverrideMethods"
  | setOverrides => "setOverrideMethods"
  | mapOverrides => "mapOverrideMethods"
  | accessors => "gettersAndSetters"
  | getterPrefixes => "getterPrefixes"
  | setterPrefixes => "setterPrefixes"

/-- The setting of a member name. -/
def ofName? (name : String) : Option Setting := all.find? (·.name == name)

end Setting

/-- The names in an array of strings. -/
def names? : Json → Option (List String)
  | .array items =>
    items.mapM fun
      | .string s => s
      | _ => none
  | _ => none

/-- The configuration with one setting read from a value. -/
def set? (c : Config) (s : Setting) (v : Json) : Option Config :=
  match s with
  | .listOverrides => (names? v).map fun ns => { c with listOverrides := Names.ofList ns }
  | .setOverrides => (names? v).map fun ns => { c with setOverrides := Names.ofList ns }
  | .mapOverrides => (names? v).map fun ns => { c with mapOverrides := Names.ofList ns }
  | .accessors =>
    match v with
    | .boolean b => some { c with accessors := b }
    | _ => none
  | .getterPrefixes => (names? v).map fun ns => { c with getterPrefixes := ns }
  | .setterPrefixes => (names? v).map fun ns => { c with setterPrefixes := ns }

/-- The configuration with the members of an object set one after the other; `seen` are the
settings already met. -/
def ofMembers? (c : Config) (seen : List Setting) : List (Option String × Json) → Option Config
  | [] => some c
  | (none, _) :: _ => none
  | (some key, v) :: rest =>
    match Setting.ofName? key with
    | none => ofMembers? c seen rest
    | some s =>
      if s ∈ seen then none
      else
        match set? c s v with
        | some c' => ofMembers? c' (s :: seen) rest
        | none => none

/-- The configuration with the values of an array taken for the settings in order. -/
def ofItems? (c : Config) : List Setting → List Json → Option Config
  | _, [] => some c
  | [], _ :: _ => none
  | s :: settings, v :: values =>
    match set? c s v with
    | some c' => ofItems? c' settings values
    | none => none

/-- The configuration a JSON text describes, or `none` if the text is refused. -/
def ofJson? (text : String) : Option Config :=
  match Json.parse text with
  | some (.object members) => ofMembers? standard [] members
  | some (.array items) => ofItems? standard Setting.all items
  | _ => none

end Membrane.Config
