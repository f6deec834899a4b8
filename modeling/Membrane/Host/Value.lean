import Membrane.Script.Value

/-!
# Host values

Values on the host side. Primitives of different wrappers are never equal, floating-point numbers
compare with one zero and one NaN, objects compare by identity, and a script value held by the host
compares by what identifies it.

Source: specification, section 2, "Host object model".

## Main definitions

* `Host.Primitive`: the ten wrapper types.
* `Host.Value`.
* `Host.Value.same`: host equality, also the instance of `==`.
* `Host.Value.hashFeed`: what a value contributes to a hash. What a `Host.Hasher` makes of it is the
  embedder's choice; `Host.Value.hashCode` is its result in 32 bits.
* `Host.Value.toInt64?`, `Host.Value.toDouble?`, `Host.Value.toIndex?`: numeric readings.
-/

namespace Membrane.Host

/-- The wrapper types of primitives. -/
inductive Primitive where
  | boolean
  | byte
  | character
  | double
  | float
  | integer
  | long
  | short
  | bigInteger
  | string
  deriving DecidableEq

namespace Primitive

/-- All wrapper types. -/
def all : List Primitive :=
  [boolean, byte, character, double, float, integer, long, short, bigInteger, string]

/-- The name of the wrapper class. -/
def name : Primitive → String
  | boolean => "Boolean"
  | byte => "Byte"
  | character => "Character"
  | double => "Double"
  | float => "Float"
  | integer => "Integer"
  | long => "Long"
  | short => "Short"
  | bigInteger => "BigInteger"
  | string => "String"

end Primitive

/-- A value on the host side. -/
inductive Value where
  | null
  | boolean (b : Bool)
  | byte (n : Int8)
  | character (c : Char)
  | short (n : Int16)
  | integer (n : Int32)
  | long (n : Int64)
  | float (x : Single)
  | double (x : Double)
  | bigInteger (n : Int)
  | string (s : String)
  | object (r : Ref .object)
  | script (v : Script.Value)
  deriving DecidableEq

namespace Value

instance : Inhabited Value := ⟨.null⟩

/-- Null. -/
def isNull : Value → Bool
  | .null => true
  | _ => false

/-- The object a value refers to. -/
def object? : Value → Option (Ref .object)
  | .object r => some r
  | _ => none

/-- The thing a value refers to. -/
def node? : Value → Option Node
  | .object r => some r.node
  | .script v => v.node?
  | _ => none

/-- The wrapper type of a primitive. -/
def primitive? : Value → Option Primitive
  | .boolean _ => some .boolean
  | .byte _ => some .byte
  | .character _ => some .character
  | .short _ => some .short
  | .integer _ => some .integer
  | .long _ => some .long
  | .float _ => some .float
  | .double _ => some .double
  | .bigInteger _ => some .bigInteger
  | .string _ => some .string
  | .null | .object _ | .script _ => none

/-- A floating-point number with an integral value of absolute value below `bound`, as an
integer. -/
def integralBelow {f : Format} (bound : Nat) (x : Binary f) : Option Int64 :=
  if x.isIntegral && x.truncate.natAbs < bound then some (Int64.ofInt x.truncate) else none

/-- The integer of an integral number: floating-point numbers count while every integer of their
size is one of them with room to spare. -/
def toInt64? : Value → Option Int64
  | .byte n => some (Int64.ofInt n.toInt)
  | .short n => some (Int64.ofInt n.toInt)
  | .integer n => some (Int64.ofInt n.toInt)
  | .long n => some n
  | .double x => integralBelow 9000000000000000 x
  | .float x => integralBelow 16000000 x
  | _ => none

/-- The 64-bit floating-point number of a number. -/
def toDouble? : Value → Option Double
  | .byte n => some (Binary.ofInt _ n.toInt)
  | .short n => some (Binary.ofInt _ n.toInt)
  | .integer n => some (Binary.ofInt _ n.toInt)
  | .long n => some (Binary.ofInt _ n.toInt)
  | .float x => some (x.convert _)
  | .double x => some x
  | _ => none

/-- The index of a number: an integral value that is not negative. -/
def toIndex? (v : Value) : Option Nat :=
  v.toInt64?.bind fun n => if 0 ≤ n.toInt then some n.toInt.toNat else none

/-- Host equality. -/
def same : Value → Value → Bool
  | .null, .null => true
  | .boolean a, .boolean b => a = b
  | .byte a, .byte b => a = b
  | .character a, .character b => a = b
  | .short a, .short b => a = b
  | .integer a, .integer b => a = b
  | .long a, .long b => a = b
  | .float a, .float b => (a.convert .double).canonical = (b.convert .double).canonical
  | .double a, .double b => a.canonical = b.canonical
  | .bigInteger a, .bigInteger b => a = b
  | .string a, .string b => a = b
  | .object a, .object b => a = b
  | .script a, .script b => a.identity = b.identity
  | _, _ => false

instance : BEq Value := ⟨same⟩

/-- What a value contributes to a hash: a number for its type and the content of its type. -/
inductive HashFeed where
  | nothing
  | flag (b : Bool)
  | number (tag : Nat) (n : Int)
  | bits (tag : Nat) (x : Double)
  | text (s : String)
  | object (r : Ref .object)
  | script (i : Script.Value.Identity)
  deriving DecidableEq

/-- The contribution of a value to a hash. -/
def hashFeed : Value → HashFeed
  | .null => .nothing
  | .boolean b => .flag b
  | .byte n => .number 2 n.toInt
  | .character c => .number 3 c.toNat
  | .short n => .number 4 n.toInt
  | .integer n => .number 5 n.toInt
  | .long n => .number 6 n.toInt
  | .float x => .bits 7 (x.convert .double).canonical
  | .double x => .bits 8 x.canonical
  | .bigInteger n => .number 9 n
  | .string s => .text s
  | .object r => .object r
  | .script v => .script v.identity

end Value

/-- What makes 64 bits of what is fed to it. -/
abbrev Hasher := Value.HashFeed → UInt64

namespace Hasher

/-- A permutation of the words of 64 bits that spreads a difference in one bit over all bits. -/
def spread (x : UInt64) : UInt64 :=
  let x := (x ^^^ (x >>> 30)) * 0xBF58476D1CE4E5B9
  let x := (x ^^^ (x >>> 27)) * 0x94D049BB133111EB
  x ^^^ (x >>> 31)

/-- One step of a hash: takes a word into a state. -/
def mix (state word : UInt64) : UInt64 := spread (spread (state + 0x9E3779B97F4A7C15) ^^^ word)

/-- The hash of a text. -/
def hashText (seed : UInt64) (s : String) : UInt64 :=
  s.toList.foldl (fun h c => mix h c.val.toUInt64) seed

/-- A hasher for runs that are given no other. An integer is taken in as its decimal digits, since
it can have any size. -/
def standard : Hasher
  | .nothing => mix 0 0
  | .flag b => mix 1 b.toNat.toUInt64
  | .number tag n => hashText tag.toUInt64 (toString n)
  | .bits tag x => mix tag.toUInt64 x.bits.toNat.toUInt64
  | .text s => hashText 10 s
  | .object r => mix 11 r.index.toUInt64
  | .script (.array r) => mix 12 r.index.toUInt64
  | .script (.object r) => mix 13 r.index.toUInt64
  | .script (.function r) => mix 14 r.index.toUInt64
  | .script (.proxy r) => mix 15 r.index.toUInt64
  | .script (.symbol i) => mix 16 i.toUInt64
  | .script (.tagged s) => hashText 17 s

end Hasher

/-- The hash of a value in 32 bits. -/
def Value.hashCode (v : Value) (hasher : Hasher := .standard) : Int32 :=
  (hasher v.hashFeed).toUInt32.toInt32

end Membrane.Host
