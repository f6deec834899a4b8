import Membrane.Host.Value
import Mathlib.Tactic.Common

/-!
# Host equality

Host values are equal just if they contribute the same to a hash, so host equality is an equivalence
and equal values have equal hashes. Among floating-point numbers there is one zero and one NaN for
it.

## Main results

* `Host.Value.beq_iff_hashFeed_eq`: equality as equality of contributions.
* `Host.Value.double_beq_double_iff`, `Host.Value.float_beq_float_iff`: equality of floating-point
  numbers.
-/

namespace Membrane

/-! ### Numbers -/

namespace Binary

theorem isNaN_of_isZero {f : Format} {x : Binary f} (h : x.isZero) : x.isNaN = false := by
  have hmagnitude : x.magnitude = 0 := by simpa [isZero] using h
  simp [isNaN, hmagnitude]

/-- The value of either zero is zero. -/
theorem absScaled_of_isZero {f : Format} {x : Binary f} (h : x.isZero) : x.absScaled = 0 := by
  have hmagnitude : x.magnitude = 0 := by simpa [isZero] using h
  simp [absScaled, significand, hmagnitude]

theorem isZero_canonical (x : Double) : x.canonical.isZero = x.isZero := by
  unfold canonical
  split
  · next h => exact h.symm ▸ by decide
  · next h =>
    split
    · exact (Bool.eq_false_iff.2 h).symm ▸ by decide
    · rfl

theorem isNaN_canonical (x : Double) : x.canonical.isNaN = x.isNaN := by
  unfold canonical
  split
  · next h => exact (isNaN_of_isZero h).symm ▸ by decide
  · split
    · next h => exact h.symm ▸ by decide
    · rfl

/-- Numbers are told apart unless both are zero, both are NaN or they are the same. -/
theorem canonical_eq_canonical_iff {x y : Double} : x.canonical = y.canonical ↔
    x.isZero ∧ y.isZero ∨ x.isNaN ∧ y.isNaN ∨ x = y := by
  have hNaN {u : Double} (hu : u.isNaN) : u.canonical = nan .double := by
    have hnonzero : ¬u.isZero := fun hzero => by simp [isNaN_of_isZero hzero] at hu
    rw [canonical, if_neg hnonzero, if_pos hu]
  constructor
  · intro h
    have hzero : x.isZero = y.isZero := by rw [← isZero_canonical, h, isZero_canonical]
    have hnan : x.isNaN = y.isNaN := by rw [← isNaN_canonical, h, isNaN_canonical]
    by_cases hy : y.isZero
    · exact .inl ⟨hzero.trans hy, hy⟩
    · by_cases hy' : y.isNaN
      · exact .inr (.inl ⟨hnan.trans hy', hy'⟩)
      · rw [canonical, canonical, hzero, hnan, if_neg hy, if_neg hy', if_neg hy, if_neg hy'] at h
        exact .inr (.inr h)
  · rintro (⟨hx, hy⟩ | ⟨hx, hy⟩ | rfl)
    · rw [canonical, canonical, if_pos hx, if_pos hy]
    · rw [hNaN hx, hNaN hy]
    · rfl

theorem isZero_convert {x : Single} (h : x.isZero) : (x.convert .double).isZero := by
  have hmagnitude : x.magnitude = 0 := by simpa [isZero] using h
  have hfinite : ¬x.isInfinite := by
    simp [isInfinite, hmagnitude]
    decide
  rw [convert, isNaN_of_isZero h, if_neg Bool.false_ne_true, if_neg hfinite,
    absScaled_of_isZero h]
  cases x.negative <;> decide +kernel

theorem isNaN_convert {x : Single} (h : x.isNaN) : (x.convert .double).isNaN := by
  rw [convert, if_pos h]
  decide

end Binary

/-! ### Values -/

namespace Host.Value

/-- Values are equal just if they contribute the same to a hash. -/
theorem beq_iff_hashFeed_eq (a b : Value) : a == b ↔ a.hashFeed = b.hashFeed := by
  change a.same b = true ↔ _
  cases a <;> cases b
  case character.character c d =>
    simp only [same, hashFeed, HashFeed.number.injEq, true_and, Int.natCast_inj, Char.toNat_inj,
      decide_eq_true_iff]
  all_goals
    simp [same, hashFeed, Int8.toInt_inj, Int16.toInt_inj, Int32.toInt_inj, Int64.toInt_inj]

/-- Host equality is an equivalence. -/
instance : EquivBEq Value where
  rfl := (beq_iff_hashFeed_eq _ _).2 rfl
  symm h := (beq_iff_hashFeed_eq _ _).2 ((beq_iff_hashFeed_eq _ _).1 h).symm
  trans h h' := (beq_iff_hashFeed_eq _ _).2
    (((beq_iff_hashFeed_eq _ _).1 h).trans ((beq_iff_hashFeed_eq _ _).1 h'))

/-- Equal values have equal hashes, whatever the hasher. -/
theorem hashCode_eq_of_beq {a b : Value} (h : a == b) (hasher : Hasher) :
    a.hashCode hasher = b.hashCode hasher := by
  unfold hashCode
  rw [(beq_iff_hashFeed_eq a b).1 h]

theorem double_beq_double_iff {x y : Double} : Value.double x == .double y ↔
    x.isZero ∧ y.isZero ∨ x.isNaN ∧ y.isNaN ∨ x = y :=
  decide_eq_true_iff.trans Binary.canonical_eq_canonical_iff

/-- Numbers of 32 bits are compared as those of 64 bits that they are carried to. -/
theorem float_beq_float_iff {x y : Single} : Value.float x == .float y ↔
    Value.double (x.convert .double) == .double (y.convert .double) :=
  Iff.rfl

end Host.Value

open Host (Value) in
/-- Only a text is equal to a text. -/
theorem beq_string_iff {v : Value} {k : String} : v == .string k ↔ v = .string k := by
  constructor
  · intro h
    cases v with
    | string s => exact congrArg Value.string (eq_of_beq h)
    | _ => cases h
  · rintro rfl
    exact BEq.rfl

end Membrane
