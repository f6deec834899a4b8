import Membrane.Script.Value
import Mathlib.Tactic.Common

/-!
# Signs of narrowed numbers

Narrowing a number to 32 bits is not made for its sign. A 32-bit integer keeps its sign, but a
longer one is reduced to its low 32 bits and may come out with any sign, and a positive
floating-point number below one comes out as zero.

## Main definitions

* `Script.Value.sign`: the sign of a number of any of the three variants.
* `Script.Value.KeepsPositive`: that a value is positive after narrowing just if it was before.

## Main results

* `keepsPositive_integer`, `keepsPositive_long_iff`, `keepsPositive_double_iff`: which numbers of
  each variant do.
-/

namespace Membrane

/-- The sign of a floating-point number; NaN and both zeros have none. -/
def Double.sign (x : Double) : Ordering := if x.isNaN then .eq else compare x.rank 0

namespace Script.Value

/-- The sign of a number; other values have none. -/
def sign : Value → Ordering
  | .integer n => compare n.toInt 0
  | .long n => compare n.toInt 0
  | .double x => Double.sign x
  | _ => .eq

/-- The value is positive after narrowing just if it was before. -/
def KeepsPositive (v : Value) : Prop := 0 < v.toInt32.toInt ↔ v.sign = .gt

theorem keepsPositive_integer (n : Int32) : (integer n).KeepsPositive :=
  Int.compare_eq_gt.symm

/-- A longer integer keeps its low 32 bits. -/
theorem keepsPositive_long_iff (n : Int64) :
    (long n).KeepsPositive ↔ (0 < n.toInt.bmod 4294967296 ↔ 0 < n.toInt) := by
  have hsize : Int32.size = 4294967296 := rfl
  unfold KeepsPositive sign toInt32
  rw [Int.compare_eq_gt, Int32.toInt_ofInt, hsize]

/-- Moved to the nearer end of the range, an integer keeps its sign. -/
theorem clampInt32_pos_iff (n : Int) : 0 < (clampInt32 n).toInt ↔ 0 < n := by
  unfold clampInt32
  split
  · have : (Int32.ofInt (-2147483648)).toInt = -2147483648 := by decide
    omega
  · split
    · have : (Int32.ofInt 2147483647).toInt = 2147483647 := by decide
      omega
    · rw [Int32.toInt_ofInt_of_le (by omega) (by omega)]

/-- Only a positive number has a positive integral part. -/
theorem rank_pos_of_truncate_pos {x : Double} (h : 0 < x.truncate) : 0 < x.rank := by
  unfold Binary.truncate at h
  unfold Binary.rank
  cases hx : x.negative with
  | true =>
    simp only [hx, ↓reduceIte] at h
    exact absurd h (Int.not_lt.2 (Int.neg_nonpos_of_nonneg (Int.natCast_nonneg _)))
  | false =>
    simp only [hx, Bool.false_eq_true, ↓reduceIte] at h ⊢
    by_contra hmagnitude
    have hzero : x.magnitude = 0 := by omega
    have hscaled : x.absScaled = 0 := by
      simp [Binary.absScaled, Binary.significand, hzero]
    simp [hscaled] at h

/-- The sign of infinity is its sign bit. -/
theorem rank_pos_of_isInfinite {x : Double} (h : x.isInfinite = true) :
    0 < x.rank ↔ x.negative = false := by
  have hmagnitude : x.magnitude = Format.infinity .double := by simpa [Binary.isInfinite] using h
  have hpos : 0 < Format.infinity .double := by decide
  unfold Binary.rank
  rw [hmagnitude]
  cases x.negative with
  | true =>
    simp only [↓reduceIte, Bool.true_eq_false, iff_false]
    omega
  | false =>
    simp only [Bool.false_eq_true, ↓reduceIte, iff_true]
    omega

theorem sign_eq_gt_iff (x : Double) : Double.sign x = .gt ↔ x.isNaN = false ∧ 0 < x.rank := by
  unfold Double.sign
  cases x.isNaN with
  | true => simp
  | false => simp [Int.compare_eq_gt]

/-- A floating-point number loses its fractional part. -/
theorem keepsPositive_double_iff (x : Double) :
    (double x).KeepsPositive ↔ (Double.sign x = .gt → x.isInfinite = true ∨ 1 ≤ x.truncate) := by
  change (0 < (narrow x).toInt ↔ Double.sign x = .gt) ↔ _
  rw [sign_eq_gt_iff]
  unfold narrow
  cases hnan : x.isNaN with
  | true => simp
  | false =>
    cases hinf : x.isInfinite with
    | true =>
      simp only [Bool.false_eq_true, ↓reduceIte, clampInt32_pos_iff, rank_pos_of_isInfinite hinf]
      cases x.negative <;> simp
    | false =>
      simp only [Bool.false_eq_true, ↓reduceIte, clampInt32_pos_iff, true_and, false_or]
      exact ⟨fun h hrank => h.2 hrank, fun h => ⟨rank_pos_of_truncate_pos, h⟩⟩

/-- A number without a sign is zero or NaN, and so it narrows to zero. -/
theorem keepsPositive_of_sign_eq {v : Value} (hv : v.toNumber?.isSome = true)
    (hsign : v.sign = .eq) : v.KeepsPositive := by
  cases v with
  | integer n => exact keepsPositive_integer n
  | long n =>
    have hzero : n.toInt = 0 := Int.compare_eq_eq.1 hsign
    rw [keepsPositive_long_iff, hzero]
    decide
  | double x =>
    rw [keepsPositive_double_iff]
    intro hgt
    rw [show Double.sign x = .eq from hsign] at hgt
    cases hgt
  | _ => simp [toNumber?] at hv

end Script.Value

end Membrane
