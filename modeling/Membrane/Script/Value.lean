import Membrane.Data.Store
import Membrane.Numeral.Print
import Membrane.Numeral.Read
import Membrane.Numeral.Words

/-!
# Script values

Values as the script engine sees them: primitives by value, everything with an identity by
reference. Numbers come in three variants, which compare as 64-bit floating-point numbers.

Source: specification, section 2, "Script value model".

## Main definitions

* `Script.Symbol`, `Script.Value`, `Script.Key`.
* `Script.Value.same`: strict equality, except that NaN equals itself.
* `Script.Value.toInt32`: narrowing to 32 bits.
* `Script.Value.truthy`: the value as a condition.
* `Script.Value.primitiveText?`: the string form of values without parts.
* `Script.Value.identity`: what tells apart script values that the host holds.
* `Script.Value.node?`: what a value refers to.
-/

namespace Membrane.Script

/-- A symbol. The number identifies it; the description only names it. -/
structure Symbol where
  /-- The identity of the symbol. -/
  id : Nat
  /-- The name it was given. -/
  description : String
  deriving DecidableEq

namespace Symbol

instance : BEq Symbol := ⟨fun a b => a.id == b.id⟩

/-- The symbol under which an object offers its iterator. -/
def iterator : Symbol := ⟨1, "Symbol.iterator"⟩

/-- The symbol under which an object offers its primitive value. -/
def toPrimitive : Symbol := ⟨2, "Symbol.toPrimitive"⟩

/-- The identity of the first symbol that a script creates. -/
def firstFresh : Nat := 64

/-- The string form of a symbol. -/
def text (s : Symbol) : String := "Symbol(" ++ s.description ++ ")"

end Symbol

/-- A value as the script engine sees it. -/
inductive Value where
  | undefined
  | null
  | boolean (b : Bool)
  | integer (n : Int32)
  | long (n : Int64)
  | double (x : Double)
  | bigInt (n : Int)
  | string (s : String)
  | symbol (s : Symbol)
  | array (r : Ref .array)
  | object (r : Ref .record)
  | function (r : Ref .function)
  | proxy (r : Ref .handler)
  deriving DecidableEq

/-- A property key of a plain script object. -/
inductive Key where
  | string (s : String)
  | symbol (s : Symbol)
  deriving DecidableEq

namespace Key

/-- Symbol keys are the same by identity. -/
def same : Key → Key → Bool
  | .string a, .string b => a = b
  | .symbol a, .symbol b => a == b
  | _, _ => false

instance : BEq Key := ⟨same⟩

end Key

namespace Value

instance : Inhabited Value := ⟨.undefined⟩

/-- Null or undefined. -/
def isNullish : Value → Bool
  | .undefined | .null => true
  | _ => false

/-- Callable. -/
def isFunction : Value → Bool
  | .function _ => true
  | _ => false

/-- An array, a plain object, a callable or a proxy. -/
def isObject : Value → Bool
  | .array _ | .object _ | .function _ | .proxy _ => true
  | _ => false

/-- The number a value of one of the three number variants stands for. -/
def toNumber? : Value → Option Double
  | .integer n => some (Binary.ofInt _ n.toInt)
  | .long n => some (Binary.ofInt _ n.toInt)
  | .double x => some x
  | _ => none

/-- Strict equality, except that NaN equals itself. Numbers of all variants compare as 64-bit
floating-point numbers. -/
def same : Value → Value → Bool
  | .undefined, .undefined | .null, .null => true
  | .boolean a, .boolean b => a = b
  | .bigInt a, .bigInt b => a = b
  | .string a, .string b => a = b
  | .symbol a, .symbol b => a == b
  | .array a, .array b => a = b
  | .object a, .object b => a = b
  | .function a, .function b => a = b
  | .proxy a, .proxy b => a = b
  | a, b =>
    match a.toNumber?, b.toNumber? with
    | some x, some y => x.sameNumber y
    | _, _ => false

instance : BEq Value := ⟨same⟩

/-- An integer brought into the 32-bit range by moving it to the nearer end. -/
def clampInt32 (n : Int) : Int32 :=
  if n < -2147483648 then Int32.ofInt (-2147483648)
  else if 2147483647 < n then Int32.ofInt 2147483647
  else Int32.ofInt n

/-- A floating-point number narrowed to 32 bits: its fractional part is dropped, numbers out of
range go to the nearer end, and NaN is zero. -/
def narrow (x : Double) : Int32 :=
  if x.isNaN then 0
  else if x.isInfinite then clampInt32 (if x.negative then -2147483649 else 2147483648)
  else clampInt32 x.truncate

/-- The 32-bit integer of a value. Floating-point numbers truncate and saturate, longer integers
keep their low 32 bits, text is read as a numeral between blanks, and all else is zero. -/
def toInt32 : Value → Int32
  | .boolean b => if b then 1 else 0
  | .integer n => n
  | .long n => Int32.ofInt n.toInt
  | .double x => narrow x
  | .bigInt n => Numeral.lowBits n
  | .string s => ((Numeral.read (Text.trim s.toList)).map narrow).getD 0
  | _ => 0

/-- The value as a condition. -/
def truthy : Value → Bool
  | .undefined | .null => false
  | .boolean b => b
  | .integer n => n != 0
  | .long n => n != 0
  | .double x => !x.isZero && !x.isNaN
  | .bigInt n => n != 0
  | .string s => !s.isEmpty
  | _ => true

/-- The string form of a value without parts; arrays, objects, callables and proxies have none by
themselves. -/
def primitiveText? : Value → Option String
  | .undefined => some "undefined"
  | .null => some "null"
  | .boolean b => some (if b then "true" else "false")
  | .integer n => some (toString n.toInt)
  | .long n => some (toString n.toInt)
  | .double x => some (Layout.script.write x)
  | .bigInt n => some (toString n)
  | .string s => some s
  | .symbol s => some s.text
  | _ => none

/-- The name of a value's type. -/
def typeTag : Value → String
  | .undefined => "undefined"
  | .null => "null"
  | .boolean _ => "boolean"
  | .integer _ | .long _ | .double _ => "number"
  | .bigInt _ => "bigint"
  | .string _ => "string"
  | .symbol _ => "symbol"
  | .function _ => "function"
  | .array _ | .object _ | .proxy _ => "object"

/-- What tells apart script values that the host holds. -/
inductive Identity where
  | array (r : Ref .array)
  | object (r : Ref .record)
  | function (r : Ref .function)
  | proxy (r : Ref .handler)
  | symbol (id : Nat)
  | tagged (s : String)
  deriving DecidableEq

/-- The identity of a value the host holds: its reference, its symbol, or its string form under the
name of its type. -/
def identity : Value → Identity
  | .array r => .array r
  | .object r => .object r
  | .function r => .function r
  | .proxy r => .proxy r
  | .symbol s => .symbol s.id
  | v => .tagged (v.typeTag ++ ":" ++ v.primitiveText?.getD "")

/-- The thing a value refers to. -/
def node? : Value → Option Node
  | .array r => some r.node
  | .object r => some r.node
  | .function r => some r.node
  | .proxy r => some r.node
  | _ => none

/-- The script number of a length or an index. -/
def ofIndex (n : Nat) : Value := .integer (clampInt32 n)

end Value

end Membrane.Script
