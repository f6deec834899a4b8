import Membrane.Numeral.Read
import Membrane.Proxy.Property
import Mathlib.Tactic.Common

/-!
# Index keys

An index is a key by its decimal text, and the key is read as that index again. Reading stops at the
largest index there is. What that means for longer numbers is that they stand for no index at all:
a digit string stands for the number it denotes if this is an index, and for nothing otherwise.

## Main definitions

* `IsDigitString`: the texts that may stand for an index.

## Main results

* `Numeral.digitsUpTo_of_le`, `Numeral.lt_digitsUpTo`: reading up to a bound.
* `indexKey?_of_isDigitString`: what a digit string stands for.
* `indexKey?_toString`: an index is read as it is written.
-/

namespace Membrane

namespace Numeral

variable {bound n : Nat}

/-- A number with further digits is not smaller. -/
theorem le_foldl_appendDigit (n : Nat) (cs : List Char) : n ≤ cs.foldl appendDigit n := by
  induction cs generalizing n with
  | nil => exact Nat.le_refl n
  | cons c cs ih =>
    have hdigit : n ≤ appendDigit n c := by
      unfold appendDigit
      omega
    exact Nat.le_trans hdigit (ih (appendDigit n c))

/-- A number beyond the bound has no further digits read. -/
theorem foldl_of_lt (h : bound < n) (cs : List Char) :
    cs.foldl (fun n c => if bound < n then n else appendDigit n c) n = n := by
  induction cs with
  | nil => rfl
  | cons c cs ih => rwa [List.foldl_cons, if_pos h]

/-- With further digits read up to a bound, a number is what all digits make of it, or both are
beyond the bound. -/
theorem foldl_upTo (bound n : Nat) (cs : List Char) :
    cs.foldl (fun n c => if bound < n then n else appendDigit n c) n = cs.foldl appendDigit n ∨
      bound < cs.foldl (fun n c => if bound < n then n else appendDigit n c) n ∧
        bound < cs.foldl appendDigit n := by
  induction cs generalizing n with
  | nil => exact .inl rfl
  | cons c cs ih =>
    by_cases h : bound < n
    · rw [foldl_of_lt h]
      exact .inr ⟨h, Nat.lt_of_lt_of_le h (le_foldl_appendDigit n (c :: cs))⟩
    · rw [List.foldl_cons, List.foldl_cons, if_neg h]
      exact ih (appendDigit n c)

/-- A number within the bound is read. -/
theorem digitsUpTo_of_le {cs : List Char} (h : digitsValue cs ≤ bound) :
    digitsUpTo bound cs = digitsValue cs :=
  (foldl_upTo bound 0 cs).resolve_right fun hlt => absurd hlt.2 (Nat.not_lt.2 h)

/-- A number beyond the bound is read as one beyond the bound. -/
theorem lt_digitsUpTo {cs : List Char} (h : bound < digitsValue cs) :
    bound < digitsUpTo bound cs := by
  obtain heq | hlt := foldl_upTo bound 0 cs
  · exact Nat.lt_of_lt_of_eq h heq.symm
  · exact hlt.1

/-- The digits of a number denote it. -/
theorem digitsValue_toDigits (n : Nat) : digitsValue (Nat.toDigits 10 n) = n := by
  have hvalue := Nat.ofDigitChars_ten_toDigits (n := n)
  rwa [Nat.ofDigitChars_eq_foldl] at hvalue

end Numeral

/-- A text that consists of digits, of which there is one at least. -/
def IsDigitString (name : String) : Prop :=
  name ≠ "" ∧ ∀ c ∈ name.toList, Numeral.isDigit c = true

/-- A digit string stands for the number it denotes if this is an index, and for nothing
otherwise. -/
theorem indexKey?_of_isDigitString {name : String} (h : IsDigitString name) :
    indexKey? name = if Numeral.digitsValue name.toList ≤ 2147483647
      then some (Numeral.digitsValue name.toList) else none := by
  have hdigits : (name.toList.isEmpty || !name.toList.all Numeral.isDigit) = false := by
    simpa using And.intro h.1 h.2
  unfold indexKey?
  simp only [hdigits, Bool.false_eq_true, if_false]
  by_cases hle : Numeral.digitsValue name.toList ≤ 2147483647
  · rw [Numeral.digitsUpTo_of_le hle]
  · rw [if_neg hle, if_neg (Nat.not_le.2 (Numeral.lt_digitsUpTo (Nat.lt_of_not_le hle)))]

theorem isDigitString_toString (i : Nat) : IsDigitString (toString i) := by
  refine ⟨Nat.repr_ne_empty, fun c hc => ?_⟩
  rw [Nat.toString_eq_repr, Nat.toList_repr] at hc
  have hdigit := Nat.isDigit_of_mem_toDigits (by decide) (by decide) hc
  simpa [Char.isDigit, Numeral.isDigit, Char.le_def] using hdigit

/-- An index is read as it is written. -/
theorem indexKey?_toString {i : Nat} (h : i ≤ 2147483647) : indexKey? (toString i) = some i := by
  have hvalue : Numeral.digitsValue (toString i).toList = i := by
    rw [Nat.toString_eq_repr, Nat.toList_repr, Numeral.digitsValue_toDigits]
  rw [indexKey?_of_isDigitString (isDigitString_toString i), hvalue, if_pos h]

end Membrane
