import Membrane.World

/-!
# String forms

The text of a value in a world. Collections are written with their elements, each time they are met,
except while they are already being written further out: there a map is `(this Map)` and any other
host collection `(this Collection)`. Nothing marks a script array met again inside itself, so a
value has no text if it leads to an array that leads back to itself without a host collection in
between.

A collection is locked while it is written to, and reading it then waits for ever. So a value has no
text either while a collection that would be written for it is locked.

Only collections have parts, so a value is first reduced to what is to be written: text, a host
object or a script array.

Source: specification, section 2, the string conversion of "Script value model" and of "Host object
model", section 4.4 for the string forms of objects and section 5 for the locks.

## Main definitions

* `Collection`, `Host.Data.collection?`: how a host collection is written.
* `World.writeHost`, `World.writeScript`: what is to be written for a value.
* `World.write`: the text, given the collections being written and those locked.
* `World.hostText?`: the string form, as far as there is one.
* `Run.hostText`, `Run.scriptText`: a computation that needs a string form has no result without it.
* `Run.raiseAbout`: raising a fault that quotes a value.
-/

namespace Membrane

/-- A collection that may be being written. -/
inductive Place where
  | object (r : Ref .object)
  | array (r : Ref .array)
  deriving DecidableEq

/-- What is to be written for a value. -/
inductive Writing where
  | text (s : String)
  | place (p : Place)
  deriving DecidableEq

/-- A sequence of texts between separators. -/
def joinTexts (separator : String) : List String → String
  | [] => ""
  | [s] => s
  | s :: rest => s ++ separator ++ joinTexts separator rest

/-- The hexadecimal numeral of a number, in small letters. -/
def hexText (n : Nat) : String := String.ofList (Nat.toDigits 16 n)

/-- How a collection is written. -/
structure Collection where
  /-- What stands for it inside itself. -/
  marker : String
  /-- What comes before its elements. -/
  opening : String
  /-- What comes after its elements. -/
  closing : String
  /-- Its elements: a value each, or a key and a value. -/
  elements : List (List Host.Value)

namespace Collection

/-- The text of a collection, if its values have texts. -/
def write? (c : Collection) (textOf : Host.Value → Option String) : Option String := do
  let texts ← c.elements.mapM fun values => do return joinTexts "=" (← values.mapM textOf)
  return c.opening ++ joinTexts ", " texts ++ c.closing

end Collection

/-- How storage is written that holds elements. -/
def Host.Data.collection? : Host.Data → Option Collection
  | .plain | .classRef _ => none
  | .list items | .array items => some ⟨"(this Collection)", "[", "]", items.toList.map ([·])⟩
  | .set members => some ⟨"(this Collection)", "[", "]", members.map ([·])⟩
  | .map entries => some ⟨"(this Map)", "\x7b", "\x7d", entries.map fun e => [e.1, e.2]⟩

namespace World

/-- The number that stands for the address of an object. -/
def address (w : World) (r : Ref .object) : Nat := w.firstAddress + 16 * r.index

/-- What is to be written for a target of handlers, and so for no value that the script keeps: no
handler is made for one. -/
def writeTarget (v : Host.Value) : Writing :=
  match v with
  | .null => .text "null"
  | .boolean b => .text (if b then "true" else "false")
  | .byte n => .text (toString n.toInt)
  | .character c => .text (String.ofList [c])
  | .short n => .text (toString n.toInt)
  | .integer n => .text (toString n.toInt)
  | .long n => .text (toString n.toInt)
  | .float x => .text (Layout.host.write x)
  | .double x => .text (Layout.host.write x)
  | .bigInteger n => .text (toString n)
  | .string s => .text s
  | .object r => .place (.object r)
  | .script _ => .text ""

/-- What is to be written for a script value: a proxy stands for its target. -/
def writeScript (w : World) (v : Script.Value) : Writing :=
  match v with
  | .array r => .place (.array r)
  | .object _ => .text "[object Object]"
  | .function r =>
    .text ("function " ++ ((w.functions.get? r).map Callable.name).getD "" ++
      "() \x7b [native code] \x7d")
  | .proxy r => ((w.handlers.get? r).map fun h => writeTarget h.target).getD (.text "")
  | v => .text (v.primitiveText?.getD "")

/-- What is to be written for a host value. -/
def writeHost (w : World) (v : Host.Value) : Writing :=
  match v with
  | .script s => w.writeScript s
  | v => writeTarget v

/-- The text of an object that is no collection. -/
def plainText (w : World) (r : Ref .object) (o : Host.Object) : String :=
  match o.data with
  | .classRef c => "class " ++ c.name
  | _ => o.cls.name ++ "@" ++ hexText (w.address r)

/-- The text of what is to be written, while the host collections of `outer` are being written,
within the innermost of them the script arrays of `inner`, and the host collections of `locked` can
not be read. The first argument after these bounds the depth of collections in each other. -/
def write (w : World) (locked : List (Ref .object)) :
    Nat → List (Ref .object) → List (Ref .array) → Writing → Option String
  | _, _, _, .text s => some s
  | 0, _, _, .place _ => none
  | n + 1, outer, inner, .place (.array r) =>
    if r.isIn inner then none
    else do
      let texts ← ((w.arrays.get? r).getD []).mapM fun v =>
        if v.isNullish then some "" else w.write locked n outer (r :: inner) (w.writeScript v)
      return joinTexts "," texts
  | n + 1, outer, _, .place (.object r) =>
    match w.objects.get? r with
    | none => some ""
    | some o =>
      match o.data.collection? with
      | none => some (w.plainText r o)
      | some c =>
        if r.isIn outer then some c.marker
        else if r.isIn locked then none
        else c.write? fun v => w.write locked n (r :: outer) [] (w.writeHost v)

/-- A bound on the depth of collections in each other: no host collection is entered twice, and no
script array between two of them. -/
def depth (w : World) : Nat := (w.objects.size + 1) * (w.arrays.size + 1) + 1

/-- The string form of a host value while some collections are locked, if it has one. -/
def hostText? (w : World) (v : Host.Value) (locked : List (Ref .object) := []) : Option String :=
  w.write locked w.depth [] [] (w.writeHost v)

/-- The string form of a host value that has one. -/
def hostText (w : World) (v : Host.Value) : String := (w.hostText? v).getD ""

/-- The string form of a script value that has one. -/
def scriptText (w : World) (v : Script.Value) : String := w.hostText (.script v)

/-- How a computation ends that raises a fault with the text of a value in it. -/
def haltAbout (w : World) (v : Host.Value) (fault : String → Fault)
    (locked : List (Ref .object) := []) : Halt :=
  match w.hostText? v locked with
  | some s => .fault (fault s)
  | none => .exhausted

end World

namespace Run

/-- The string form of a host value in the world reached, while some collections are locked. A
computation that needs one where there is none does not end. -/
def hostText (v : Host.Value) (locked : List (Ref .object) := []) : Run String := do
  orExhausted ((← get).hostText? v locked)

/-- The string form of a script value in the world reached. -/
def scriptText (v : Script.Value) : Run String := hostText (.script v)

/-- Ends with a fault that has the text of a value in it. -/
def raiseAbout {α : Type} (v : Host.Value) (fault : String → Fault)
    (locked : List (Ref .object) := []) : Run α := do
  throw ((← get).haltAbout v fault locked)

end Run

end Membrane
