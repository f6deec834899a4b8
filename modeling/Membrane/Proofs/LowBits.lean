import Membrane.Arguments
import Mathlib.Data.Int.ModEq
import Mathlib.Tactic.Common

/-!
# Low bits of integers

An integer of any size is narrowed by way of the words it is kept in: of its absolute value only the
lowest word counts, which is then negated if the integer is negative. What comes out differs from
the integer by a multiple of `2 ^ 32`, and so it is the only number of 32 bits that does. The
narrower integers are narrowed without any words, with the same result.

## Main definitions

* `Numeral.ofWords`: the number that words are written for.
* `Script.Value.Carries`: the integer that a value of one of the integer variants stands for.

## Main results

* `Numeral.ofWords_words`: the words of a number make it up.
* `Numeral.lowBits_modEq`: the low bits of an integer, up to multiples of `2 ^ 32`.
* `integers_narrow_alike`: all integer variants are narrowed to the same number.
-/

namespace Membrane

namespace Numeral

/-- The number that words are written for, the lowest first. -/
def ofWords : List UInt32 → Nat
  | [] => 0
  | d :: ds => d.toNat + 4294967296 * ofWords ds

/-- A number is written with the words that make it up. -/
theorem ofWords_words (n : Nat) : ofWords (words n) = n := by
  induction n using words.induct with
  | case1 =>
    rw [words]
    rfl
  | case2 n hn ih =>
    rw [words, if_neg hn, ofWords, ih, UInt32.toNat_ofNat']
    exact Nat.mod_add_div n 4294967296

/-- All words but the lowest stand for multiples of `2 ^ 32`. -/
theorem ofWords_modEq (ds : List UInt32) :
    (ofWords ds : Int) ≡ (ds.head?.getD 0).toNat [ZMOD 4294967296] := by
  cases ds with
  | nil => rfl
  | cons d ds =>
    change ((d.toNat + 4294967296 * ofWords ds : Nat) : Int) ≡ d.toNat [ZMOD 4294967296]
    rw [Int.ModEq]
    omega

/-- Multiples of `2 ^ 32` bring a number into the range of 32 bits. -/
theorem bmod_modEq (n : Int) : n.bmod 4294967296 ≡ n [ZMOD 4294967296] := Int.bmod_emod

/-- A word is taken as the signed number with the same bits. -/
theorem toInt32_modEq (d : UInt32) : d.toInt32.toInt ≡ d.toNat [ZMOD 4294967296] := by
  have hbits : d.toInt32.toInt = (d.toNat : Int).bmod 4294967296 := BitVec.toInt_eq_toNat_bmod _
  rw [hbits]
  exact bmod_modEq _

/-- The low bits of an integer differ from it by a multiple of `2 ^ 32`. -/
theorem lowBits_modEq (n : Int) : (lowBits n).toInt ≡ n [ZMOD 4294967296] := by
  have hlow : ((words n.natAbs).head?.getD 0).toInt32.toInt ≡ n.natAbs [ZMOD 4294967296] :=
    calc ((words n.natAbs).head?.getD 0).toInt32.toInt
        ≡ ((words n.natAbs).head?.getD 0).toNat [ZMOD 4294967296] := toInt32_modEq _
      _ ≡ ofWords (words n.natAbs) [ZMOD 4294967296] := (ofWords_modEq _).symm
      _ = n.natAbs := by rw [ofWords_words]
  unfold lowBits
  dsimp only
  split
  · next hnegative =>
    have hneg := hlow.neg
    rw [show -(n.natAbs : Int) = n by omega] at hneg
    rw [Int32.toInt_neg]
    exact (bmod_modEq _).trans hneg
  · next hnegative =>
    rwa [show (n.natAbs : Int) = n by omega] at hlow

end Numeral

/-- Numbers of 32 bits that differ by a multiple of `2 ^ 32` are the same. -/
theorem int32_eq_of_modEq {a b : Int32} (h : a.toInt ≡ b.toInt [ZMOD 4294967296]) : a = b := by
  have hlow := a.le_toInt
  have hhigh := a.toInt_lt
  have hlow' := b.le_toInt
  have hhigh' := b.toInt_lt
  rw [Int.ModEq] at h
  exact Int32.toInt_inj.1 (by omega)

namespace Script.Value

/-- A value of one of the three integer variants stands for an integer. -/
inductive Carries : Value → Int → Prop
  /-- An integer of 32 bits. -/
  | integer (k : Int32) : Carries (.integer k) k.toInt
  /-- An integer of 64 bits. -/
  | long (k : Int64) : Carries (.long k) k.toInt
  /-- An integer of any size. -/
  | bigInt (n : Int) : Carries (.bigInt n) n

variable {v : Value} {n : Int}

/-- An integer is narrowed to a number that differs from it by a multiple of `2 ^ 32`, in whichever
variant it comes. -/
theorem Carries.toInt32_modEq (h : v.Carries n) : v.toInt32.toInt ≡ n [ZMOD 4294967296] := by
  cases h with
  | integer k => rfl
  | long k =>
    have hbits : (Int32.ofInt k.toInt).toInt = k.toInt.bmod 4294967296 := Int32.toInt_ofInt
    rw [toInt32, hbits]
    exact Numeral.bmod_modEq _
  | bigInt n => exact Numeral.lowBits_modEq n

/-- There is only one number that an integer is narrowed to. -/
theorem Carries.toInt32_eq_iff (h : v.Carries n) (m : Int32) :
    v.toInt32 = m ↔ m.toInt ≡ n [ZMOD 4294967296] := by
  constructor
  · rintro rfl
    exact h.toInt32_modEq
  · exact fun hm => int32_eq_of_modEq (h.toInt32_modEq.trans hm.symm)

theorem Carries.toInt32_eq {v' : Value} (h : v.Carries n) (h' : v'.Carries n) :
    v.toInt32 = v'.toInt32 :=
  (h.toInt32_eq_iff _).2 h'.toInt32_modEq

end Script.Value

open Script (Value)

/-- An argument that is not undefined is narrowed. -/
theorem Arguments.int_of_carries {args : List Value} {i : Nat} {v : Value} {n : Int}
    (hv : args[i]? = some v) (h : v.Carries n) (default : Int32) :
    Arguments.int args i default = v.toInt32 := by
  unfold Arguments.int
  rw [hv]
  cases h <;> rfl

/-- An integer of any size is narrowed to the one number of 32 bits that differs from it by a
multiple of `2 ^ 32`. An integer of 64 bits and one of 32 bits are narrowed to the same number as
the integer of any size that is equal to them. So it does not matter in which of the three variants
a function is given an integer for an argument. -/
theorem integers_narrow_alike (n : Int) :
    (∀ m : Int32, (Value.bigInt n).toInt32 = m ↔ m.toInt ≡ n [ZMOD 4294967296]) ∧
      (∀ k : Int64, k.toInt = n → (Value.bigInt n).toInt32 = (Value.long k).toInt32) ∧
      (∀ k : Int32, k.toInt = n → (Value.bigInt n).toInt32 = (Value.integer k).toInt32) ∧
      ∀ (args args' : List Value) (i : Nat) (v v' : Value) (default : Int32),
        args[i]? = some v → args'[i]? = some v' → v.Carries n → v'.Carries n →
        Arguments.int args i default = Arguments.int args' i default := by
  refine ⟨(Value.Carries.bigInt n).toInt32_eq_iff, ?_, ?_, ?_⟩
  · rintro k rfl
    exact (Value.Carries.bigInt k.toInt).toInt32_eq (.long k)
  · rintro k rfl
    exact (Value.Carries.bigInt k.toInt).toInt32_eq (.integer k)
  · intro args args' i v v' default hv hv' h h'
    rw [Arguments.int_of_carries hv h, Arguments.int_of_carries hv' h']
    exact h.toInt32_eq h'

/-- The integer next above the largest one of 32 bits becomes the smallest one, and a multiple of
`2 ^ 32` becomes zero. Given as an argument, minus one is the same in all variants. -/
theorem integers_narrow_alike_boundaries :
    (Value.bigInt 2147483648).toInt32 = -2147483648 ∧
      (Value.bigInt (-36893488147419103232)).toInt32 = 0 ∧
      (Value.bigInt (-2147483648)).toInt32 = (Value.long (-2147483648)).toInt32 ∧
      (Value.bigInt (-7)).toInt32 = (Value.integer (-7)).toInt32 ∧
      Arguments.int [.bigInt (-1)] 0 5 = Arguments.int [.long (-1)] 0 5 :=
  ⟨((integers_narrow_alike 2147483648).1 _).2 (by decide),
    ((integers_narrow_alike (-36893488147419103232)).1 _).2 (by decide),
    (integers_narrow_alike (-2147483648)).2.1 _ (by decide),
    (integers_narrow_alike (-7)).2.2.1 _ (by decide),
    (integers_narrow_alike (-1)).2.2.2 _ _ 0 _ _ 5 rfl rfl (.bigInt _) (.long (-1))⟩

end Membrane
