/-!
# Reading JSON text

A reader of the whole JSON grammar that keeps what a configuration can use: the members of objects
in order with repetitions, and the texts of strings. Numbers are checked and dropped. A string with
an unpaired surrogate escape is well formed but has no text.

Source: specification, section 9: configurations are loaded from JSON.

## Main definitions

* `Json`: the values.
* `Json.parse`: the value of a text, or `none`.
-/

namespace Membrane

/-- A JSON value. -/
inductive Json where
  | null
  | boolean (b : Bool)
  | number
  | string (text : Option String)
  | array (items : List Json)
  | object (members : List (Option String × Json))

namespace Json

/-- The characters between tokens. -/
def isSpace (c : Char) : Bool := c = ' ' || c = '\n' || c = '\t' || c = '\r'

/-- The text after any space. -/
def skipSpace (cs : List Char) : List Char := cs.dropWhile isSpace

/-- The rest of a text that starts with the given word. -/
def word? : List Char → List Char → Option (List Char)
  | [], cs => some cs
  | _ :: _, [] => none
  | w :: ws, c :: cs => if w = c then word? ws cs else none

/-- An ASCII digit. -/
def isDigit (c : Char) : Bool := '0' ≤ c && c ≤ '9'

/-- The rest after one or more digits. -/
def digits? (cs : List Char) : Option (List Char) :=
  match cs with
  | c :: rest => if isDigit c then some (rest.dropWhile isDigit) else none
  | [] => none

/-- The rest after the integral part of a number: zero alone, or digits not led by zero. -/
def integral? : List Char → Option (List Char)
  | '0' :: rest =>
    match rest with
    | c :: _ => if isDigit c then none else some rest
    | [] => some rest
  | cs => digits? cs

/-- The rest after an optional fraction. -/
def fraction? : List Char → Option (List Char)
  | '.' :: rest => digits? rest
  | cs => some cs

/-- The rest after an optional exponent. -/
def exponent? : List Char → Option (List Char)
  | c :: rest =>
    if c = 'e' || c = 'E' then
      match rest with
      | '+' :: ds | '-' :: ds => digits? ds
      | ds => digits? ds
    else some (c :: rest)
  | [] => some []

/-- The rest after a number. -/
def number? (cs : List Char) : Option (List Char) :=
  let unsigned := match cs with
    | '-' :: rest => rest
    | _ => cs
  ((integral? unsigned).bind fraction?).bind exponent?

/-- The value of a hexadecimal digit. -/
def hexDigit? (c : Char) : Option Nat :=
  if '0' ≤ c && c ≤ '9' then some (c.toNat - '0'.toNat)
  else if 'a' ≤ c && c ≤ 'f' then some (c.toNat - 'a'.toNat + 10)
  else if 'A' ≤ c && c ≤ 'F' then some (c.toNat - 'A'.toNat + 10)
  else none

/-- The code unit of four hexadecimal digits and the rest. -/
def unit? : List Char → Option (Nat × List Char)
  | a :: b :: c :: d :: rest => do
    let a ← hexDigit? a
    let b ← hexDigit? b
    let c ← hexDigit? c
    let d ← hexDigit? d
    some (((a * 16 + b) * 16 + c) * 16 + d, rest)
  | _ => none

/-- The character that an escape of one letter stands for. -/
def letterEscape? : Char → Option Char
  | '"' => some '"'
  | '\\' => some '\\'
  | '/' => some '/'
  | 'b' => some (Char.ofNat 8)
  | 'f' => some (Char.ofNat 12)
  | 'n' => some '\n'
  | 'r' => some '\r'
  | 't' => some '\t'
  | _ => none

/-- What a string holds at one place: a character, or a code unit written as an escape. -/
inductive Piece where
  | char (c : Char)
  | unit (n : Nat)

/-- The text of the pieces of a string. A high surrogate pairs with a low one written right after
it; any other surrogate leaves the string without a text. -/
def joinPieces : List Piece → Option (List Char)
  | [] => some []
  | .char c :: rest => (joinPieces rest).map (c :: ·)
  | .unit n :: rest =>
    if n < 0xD800 || 0xE000 ≤ n then (joinPieces rest).map (Char.ofNat n :: ·)
    else if n < 0xDC00 then
      match rest with
      | .unit m :: rest' =>
        if 0xDC00 ≤ m && m < 0xE000 then
          (joinPieces rest').map
            (Char.ofNat (0x10000 + (n - 0xD800) * 0x400 + (m - 0xDC00)) :: ·)
        else none
      | _ => none
    else none

/-- The pieces of a string up to its closing quote, and the rest. Control characters are refused.
The first argument bounds the number of pieces. -/
def pieces? : Nat → List Char → Option (List Piece × List Char)
  | 0, _ => none
  | _ + 1, [] => none
  | fuel + 1, c :: rest =>
    if c = '"' then some ([], rest)
    else if c = '\\' then
      match rest with
      | 'u' :: ds =>
        match unit? ds with
        | some (n, rest') => (pieces? fuel rest').map fun (ps, r) => (.unit n :: ps, r)
        | none => none
      | e :: rest' =>
        match letterEscape? e with
        | some x => (pieces? fuel rest').map fun (ps, r) => (.char x :: ps, r)
        | none => none
      | [] => none
    else if c.toNat < 0x20 then none
    else (pieces? fuel rest).map fun (ps, r) => (.char c :: ps, r)

/-- A string after its opening quote, and the rest. -/
def string? (cs : List Char) : Option (Option String × List Char) :=
  (pieces? (cs.length + 1) cs).map fun (ps, rest) => ((joinPieces ps).map String.ofList, rest)

mutual

/-- A value at the start of a text, and the rest. The first argument bounds the number of tokens. -/
def value? : Nat → List Char → Option (Json × List Char)
  | 0, _ => none
  | fuel + 1, cs =>
    match skipSpace cs with
    | [] => none
    | '"' :: rest => (string? rest).map fun (s, r) => (.string s, r)
    | '[' :: rest =>
      match skipSpace rest with
      | ']' :: r => some (.array [], r)
      | r => (items? fuel r).map fun (xs, r) => (.array xs, r)
    | '\x7b' :: rest =>
      match skipSpace rest with
      | '\x7d' :: r => some (.object [], r)
      | r => (members? fuel r).map fun (ms, r) => (.object ms, r)
    | 'n' :: rest => (word? ['u', 'l', 'l'] rest).map fun r => (.null, r)
    | 't' :: rest => (word? ['r', 'u', 'e'] rest).map fun r => (.boolean true, r)
    | 'f' :: rest => (word? ['a', 'l', 's', 'e'] rest).map fun r => (.boolean false, r)
    | r => (number? r).map fun r => (.number, r)

/-- The items of an array up to its closing bracket, at least one, and the rest. -/
def items? : Nat → List Char → Option (List Json × List Char)
  | 0, _ => none
  | fuel + 1, cs =>
    match value? fuel cs with
    | none => none
    | some (x, rest) =>
      match skipSpace rest with
      | ',' :: r => (items? fuel r).map fun (xs, r) => (x :: xs, r)
      | ']' :: r => some ([x], r)
      | _ => none

/-- The members of an object up to its closing brace, at least one, and the rest. -/
def members? : Nat → List Char → Option (List (Option String × Json) × List Char)
  | 0, _ => none
  | fuel + 1, cs =>
    match skipSpace cs with
    | '"' :: rest =>
      match string? rest with
      | none => none
      | some (key, rest) =>
        match skipSpace rest with
        | ':' :: rest =>
          match value? fuel rest with
          | none => none
          | some (x, rest) =>
            match skipSpace rest with
            | ',' :: r => (members? fuel r).map fun (ms, r) => ((key, x) :: ms, r)
            | '\x7d' :: r => some ([(key, x)], r)
            | _ => none
        | _ => none
    | _ => none

end

/-- The value of a text that holds one value and nothing else but space. -/
def parse (text : String) : Option Json :=
  let cs := text.toList
  match value? (2 * cs.length + 2) cs with
  | some (x, rest) => if (skipSpace rest).isEmpty then some x else none
  | none => none

end Json

end Membrane
