import Membrane.Binary.Rounding
import Mathlib.Algebra.Group.Nat.Defs
import Mathlib.Tactic.Common

/-!
# Widening numbers

A number of 32 bits is carried to the script as one of 64 bits. The wider format has room for every
significand of the narrower one and for every exponent, so rounding to it is exact.

## Main definitions

* `Binary.SameValue`: numbers of two formats that have one value.

## Main results

* `Binary.absScaled_ofRatio`: a ratio that the format can hold is rounded to itself.
* `Binary.sameValue_convert`: to widen a number changes nothing about its value.
-/

namespace Membrane

namespace Binary

/-- Numbers with one value: both are NaN, both are the same infinity, or they are finite, have one
sign and are the same multiple of a common unit. -/
def SameValue {f g : Format} (x : Binary f) (y : Binary g) : Prop :=
  x.isNaN ∧ y.isNaN ∨ x.isInfinite ∧ y.isInfinite ∧ x.negative = y.negative ∨
    x.isFinite ∧ y.isFinite ∧ x.negative = y.negative ∧
      x.absScaled * twoPow g.scale = y.absScaled * twoPow f.scale

section Magnitude

variable {f : Format} {negative : Bool} {n e s : Nat}

/-- The sign bit is the first one. -/
theorem two_pow_width : 2 ^ f.width = f.signWeight + f.signWeight := by
  rw [Format.width, Nat.add_assoc, Nat.pow_add, Nat.pow_one, Nat.two_mul]
  rfl

/-- A pattern is as long as its sign and its magnitude. -/
theorem toNat_ofMagnitude (hn : n < f.signWeight) :
    (ofMagnitude f negative n).bits.toNat = (if negative then f.signWeight else 0) + n := by
  refine Nat.mod_eq_of_lt ?_
  rw [two_pow_width]
  cases negative <;> simp <;> omega

theorem magnitude_ofMagnitude (hn : n < f.signWeight) :
    (ofMagnitude f negative n).magnitude = n := by
  rw [magnitude, toNat_ofMagnitude hn]
  cases negative with
  | false => simpa using Nat.mod_eq_of_lt hn
  | true => simpa using Nat.mod_eq_of_lt hn

theorem negative_ofMagnitude (hn : n < f.signWeight) :
    (ofMagnitude f negative n).negative = negative := by
  rw [Binary.negative, toNat_ofMagnitude hn]
  cases negative with
  | false => simpa using hn
  | true => simp

/-- The magnitude of a normal number is put together of its exponent and its significand. -/
theorem absScaled_of_magnitude {x : Binary f} (hx : x.magnitude = e * twoPow f.fractionBits + s)
    (hlow : twoPow f.fractionBits ≤ s) (hhigh : s < 2 * twoPow f.fractionBits) :
    x.absScaled = s * twoPow e := by
  obtain ⟨t, rfl⟩ := Nat.exists_eq_add_of_le hlow
  have ht : t < twoPow f.fractionBits := by omega
  have hsplit : x.magnitude = t + (e + 1) * twoPow f.fractionBits := by
    rw [hx, Nat.add_mul, Nat.one_mul]
    omega
  have hpos : 0 < twoPow f.fractionBits := Nat.two_pow_pos _
  have hquotient : x.magnitude / twoPow f.fractionBits = e + 1 := by
    rw [hsplit, Nat.add_mul_div_right t (e + 1) hpos, Nat.div_eq_of_lt ht, Nat.zero_add]
  have hremainder : x.magnitude % twoPow f.fractionBits = t := by
    rw [hsplit, Nat.add_mul_mod_self_right, Nat.mod_eq_of_lt ht]
  rw [absScaled, significand, exponent, hquotient, hremainder, if_neg (Nat.succ_ne_zero e),
    Nat.add_sub_cancel]

/-- The exponent of a significand with all its digits can be told from the number. -/
theorem log2_mul_twoPow (hlow : twoPow f.fractionBits ≤ s) (hhigh : s < 2 * twoPow f.fractionBits) :
    Nat.log2 (s * twoPow e) = f.fractionBits + e := by
  refine (Nat.log2_eq_iff ?_).2 ⟨?_, ?_⟩
  · exact Nat.mul_ne_zero (by have := Nat.two_pow_pos f.fractionBits; omega)
      (Nat.ne_of_gt (Nat.two_pow_pos e))
  · rw [Nat.pow_add]
    exact Nat.mul_le_mul_right _ hlow
  · rw [Nat.add_right_comm, Nat.pow_add, Nat.pow_succ']
    exact Nat.mul_lt_mul_of_pos_right hhigh (Nat.two_pow_pos e)

end Magnitude

/-! ### Exact ratios -/

theorem roundHalfEven_mul_right (n : Nat) {d : Nat} (hd : 0 < d) : roundHalfEven (n * d) d = n := by
  simp [roundHalfEven, Nat.mul_div_cancel n hd, hd]

/-- A ratio whose significand has exactly as many digits as the format holds is rounded to
itself. -/
theorem absScaled_ofRatio {f : Format} {negative : Bool} {num den e s : Nat} (hden : 0 < den)
    (hratio : num * twoPow f.scale = s * twoPow e * den)
    (hlow : twoPow f.fractionBits ≤ s) (hhigh : s < 2 * twoPow f.fractionBits)
    (hfits : e * twoPow f.fractionBits + s < f.infinity) (hroom : f.infinity < f.signWeight) :
    (ofRatio f negative num den).isFinite ∧ (ofRatio f negative num den).negative = negative ∧
      (ofRatio f negative num den).absScaled = s * twoPow e := by
  have hlog : Nat.log2 (s * twoPow e) = f.fractionBits + e := log2_mul_twoPow hlow hhigh
  have hround : roundHalfEven (s * twoPow e * den) (den * twoPow e) = s := by
    rw [Nat.mul_assoc, Nat.mul_comm (twoPow e) den]
    exact roundHalfEven_mul_right s (Nat.mul_pos hden (Nat.two_pow_pos e))
  have hmagnitude : ofRatio f negative num den =
      ofMagnitude f negative (e * twoPow f.fractionBits + s) := by
    simp only [ofRatio, hratio, Nat.mul_div_cancel _ hden, hlog, Nat.add_sub_cancel_left, hround,
      Nat.min_eq_right (Nat.le_of_lt hfits)]
  have hlt := Nat.lt_trans hfits hroom
  rw [hmagnitude]
  refine ⟨?_, negative_ofMagnitude hlt,
    absScaled_of_magnitude (magnitude_ofMagnitude hlt) hlow hhigh⟩
  rw [isFinite, magnitude_ofMagnitude hlt]
  exact decide_eq_true hfits

/-! ### From 32 bits to 64 -/

/-- The absolute value of a number of 32 bits has at most 24 digits, followed by zeros. -/
theorem exists_absScaled_single {x : Single} (hx : x.isFinite) :
    ∃ m e, x.absScaled = m * twoPow e ∧ m < 2 ^ 24 ∧ e < 2 ^ 8 := by
  have hfinite : x.magnitude < 255 * 2 ^ 23 := of_decide_eq_true hx
  refine ⟨x.significand, x.exponent, rfl, ?_, ?_⟩
  · have hfraction : x.magnitude % 2 ^ 23 < 2 ^ 23 := Nat.mod_lt _ (Nat.two_pow_pos _)
    change (if x.magnitude / 2 ^ 23 = 0 then x.magnitude
      else 2 ^ 23 + x.magnitude % 2 ^ 23) < 2 ^ 24
    split <;> omega
  · change x.magnitude / 2 ^ 23 - 1 < 2 ^ 8
    omega

/-- Fewer digits are filled up with zeros to as many as the format holds. -/
theorem exists_normal {m k : Nat} (hm : m ≠ 0) (hk : m < 2 ^ (k + 1)) :
    ∃ s z, m * 2 ^ z = s ∧ 2 ^ k ≤ s ∧ s < 2 * 2 ^ k ∧ z ≤ k := by
  have hlog : Nat.log2 m < k + 1 := (Nat.log2_lt hm).2 hk
  obtain ⟨z, hz⟩ := Nat.exists_eq_add_of_le (Nat.le_of_lt_succ hlog)
  refine ⟨_, z, rfl, ?_, ?_, by omega⟩
  · rw [hz, Nat.pow_add]
    exact Nat.mul_le_mul_right _ (Nat.log2_self_le hm)
  · rw [← Nat.pow_succ', hz, Nat.succ_eq_add_one, Nat.add_right_comm, Nat.pow_add]
    exact Nat.mul_lt_mul_of_pos_right Nat.lt_log2_self (Nat.two_pow_pos z)

theorem mul_twoPow_eq (m : Nat) {a b c d e : Nat} (h : a + b = c + d + e) :
    m * twoPow a * twoPow b = m * 2 ^ c * twoPow d * twoPow e := by
  change m * 2 ^ a * 2 ^ b = m * 2 ^ c * 2 ^ d * 2 ^ e
  rw [Nat.mul_assoc, ← Nat.pow_add, h, Nat.pow_add, Nat.pow_add, ← Nat.mul_assoc, ← Nat.mul_assoc]

/-- The wider format holds every finite number of the narrower one. -/
theorem absScaled_convert_finite {x : Single} (hx : x.isFinite) :
    let y := ofRatio .double x.negative x.absScaled (twoPow Format.single.scale)
    y.isFinite ∧ y.negative = x.negative ∧
      x.absScaled * twoPow Format.double.scale = y.absScaled * twoPow Format.single.scale := by
  obtain ⟨m, e, habs, hm, he⟩ := exists_absScaled_single hx
  intro y
  by_cases hzero : m = 0
  · have hy : y = ofMagnitude .double x.negative 0 := by
      simp only [y, habs, hzero, Nat.zero_mul, ofRatio]
      cases x.negative <;> decide +kernel
    have habs₀ : x.absScaled = 0 := by rw [habs, hzero, Nat.zero_mul]
    rw [hy, habs₀]
    cases x.negative <;> decide +kernel
  · obtain ⟨s, z, rfl, hlow, hhigh, hz⟩ := exists_normal (k := 52) hzero (by omega)
    have hexponents : e + Format.double.scale = z + (e + 925 - z) + Format.single.scale := by
      have : Format.double.scale = 925 + Format.single.scale := by decide
      omega
    have hratio : x.absScaled * twoPow Format.double.scale =
        m * 2 ^ z * twoPow (e + 925 - z) * twoPow Format.single.scale := by
      rw [habs]
      exact mul_twoPow_eq m hexponents
    have hfits : (e + 925 - z) * 2 ^ 52 + m * 2 ^ z < 2047 * 2 ^ 52 := by omega
    obtain ⟨hfinite, hnegative, hvalue⟩ := @absScaled_ofRatio .double x.negative _ _ _ _
      (Nat.two_pow_pos _) hratio hlow hhigh hfits (by decide)
    exact ⟨hfinite, hnegative, hratio.trans (congrArg (· * _) hvalue.symm)⟩

/-- To widen a number changes nothing about its value. -/
theorem sameValue_convert (x : Single) : x.SameValue (x.convert .double) := by
  by_cases hnan : x.isNaN
  · refine .inl ⟨hnan, ?_⟩
    rw [convert, if_pos hnan]
    decide
  · by_cases hinfinite : x.isInfinite
    · have hroom : Format.double.infinity < Format.double.signWeight := by decide
      refine .inr (.inl ⟨hinfinite, ?_, ?_⟩)
      · rw [convert, if_neg hnan, if_pos hinfinite, isInfinite, magnitude_ofMagnitude hroom]
        exact decide_eq_true rfl
      · rw [convert, if_neg hnan, if_pos hinfinite, negative_ofMagnitude hroom]
    · have hfinite : x.isFinite := by
        simp only [isNaN, isInfinite, isFinite, decide_eq_true_eq] at *
        omega
      obtain ⟨hwide, hnegative, hvalue⟩ := absScaled_convert_finite hfinite
      rw [convert, if_neg hnan, if_neg hinfinite]
      exact .inr (.inr ⟨hfinite, hwide, hnegative.symm, hvalue⟩)

end Binary

end Membrane
