import Membrane.Proofs.Equality
import Membrane.Proofs.Widening

/-!
# Equality and hashing

Sets and maps find host values by their hashes, so equality has to be an equivalence under which
equal values have equal hashes. Here it is spelled out what is equal to what. The types are kept
apart, by a number that goes into every hash. Floating-point numbers have one zero and one NaN, and
to widen a number of 32 bits makes no others equal. A script value that the host holds is told by
its reference, by its symbol, or by its text under the name of its type. No name of a type has a
colon in it, so the text cannot be taken for a part of the name.

## Main definitions

* `Binary.Coincide`: that floating-point numbers are not told apart.
* `Script.Value.SameHeld`: that held script values are not told apart.
* `Host.Value.typeNumber`, `Host.Value.HashFeed.tag`: the number of a type, and the one that goes
  into a hash.
* `Host.Value.isExact`: the values that are equal to nothing but themselves.

## Main results

* `Binary.SameValue.coincide`: numbers of one format with one value.
* `Host.Value.float_beq_float_iff_coincide`, `Host.Value.script_beq_script_iff`: equality of numbers
  of 32 bits and of held script values.
* `host_equality_hashed`: what equality and hashing have to do with each other.
-/

namespace Membrane

/-! ### Numbers -/

namespace Binary

variable {f g : Format} {x y : Binary f} {z : Binary g}

/-- Floating-point numbers that are not told apart: two zeros, two NaNs, or a number and itself. -/
def Coincide (x y : Binary f) : Prop := x.isZero ∧ y.isZero ∨ x.isNaN ∧ y.isNaN ∨ x = y

theorem toNat_bits (x : Binary f) :
    x.bits.toNat = (if x.negative then f.signWeight else 0) + x.magnitude := by
  have hlt : x.bits.toNat < f.signWeight + f.signWeight := by
    rw [← two_pow_width]
    exact x.bits.isLt
  by_cases hsign : x.bits.toNat < f.signWeight
  · simp [negative, magnitude, Nat.not_le.2 hsign, Nat.mod_eq_of_lt hsign]
  · obtain ⟨n, hn⟩ := Nat.exists_eq_add_of_le (Nat.not_lt.1 hsign)
    have hlow : n < f.signWeight := by omega
    simp [negative, magnitude, hn, Nat.mod_eq_of_lt hlow]

/-- A number is its sign and its magnitude. -/
theorem eq_of_magnitude_eq (hsign : x.negative = y.negative) (h : x.magnitude = y.magnitude) :
    x = y := by
  have hbits : x.bits = y.bits := BitVec.eq_of_toNat_eq (by rw [toNat_bits, toNat_bits, hsign, h])
  exact congrArg Binary.mk hbits

/-- The magnitude is put together of the exponent and the significand, whether or not the number has
all its digits. -/
theorem magnitude_eq (x : Binary f) :
    x.magnitude = x.exponent * twoPow f.fractionBits + x.significand := by
  by_cases h : x.magnitude / twoPow f.fractionBits = 0
  · rw [significand, if_pos h, exponent, h, Nat.zero_sub, Nat.zero_mul, Nat.zero_add]
  · obtain ⟨n, hn⟩ := Nat.exists_eq_succ_of_ne_zero h
    have hsplit := Nat.div_add_mod' x.magnitude (twoPow f.fractionBits)
    rw [hn, Nat.succ_mul] at hsplit
    simp only [exponent, significand, hn, Nat.succ_ne_zero, if_false, Nat.succ_sub_one]
    omega

/-- The exponent can be told from the absolute value. -/
theorem exponent_eq (x : Binary f) : x.exponent = Nat.log2 x.absScaled - f.fractionBits := by
  have hpos : 0 < twoPow f.fractionBits := Nat.two_pow_pos _
  by_cases h : x.magnitude / twoPow f.fractionBits = 0
  · have hlt : x.magnitude < 2 ^ f.fractionBits :=
      ((Nat.div_eq_zero_iff).1 h).resolve_left (Nat.ne_of_gt hpos)
    have habs : x.absScaled = x.magnitude := by
      rw [absScaled, significand, if_pos h, exponent, h, Nat.zero_sub]
      exact Nat.mul_one _
    rw [habs, exponent, h]
    by_cases hzero : x.magnitude = 0
    · simp [hzero]
    · have hlog := (Nat.log2_lt hzero).2 hlt
      omega
  · have hmod := Nat.mod_lt x.magnitude hpos
    have hlow : twoPow f.fractionBits ≤ x.significand := by
      rw [significand, if_neg h]
      omega
    have hhigh : x.significand < 2 * twoPow f.fractionBits := by
      rw [significand, if_neg h]
      omega
    rw [absScaled, log2_mul_twoPow hlow hhigh, Nat.add_sub_cancel_left]

/-- Numbers of one absolute value have one magnitude. -/
theorem magnitude_eq_of_absScaled_eq (h : x.absScaled = y.absScaled) :
    x.magnitude = y.magnitude := by
  have hexponent : x.exponent = y.exponent := by rw [exponent_eq, exponent_eq, h]
  have hsignificand : x.significand = y.significand := by
    rw [absScaled, absScaled, hexponent] at h
    exact Nat.eq_of_mul_eq_mul_right (Nat.two_pow_pos _) h
  rw [magnitude_eq, magnitude_eq y, hexponent, hsignificand]

theorem isZero_of_absScaled_eq_zero (h : x.absScaled = 0) : x.isZero := by
  have hsignificand : x.significand = 0 :=
    (Nat.mul_eq_zero.1 h).resolve_right (Nat.ne_of_gt (Nat.two_pow_pos _))
  have hmagnitude : x.magnitude = 0 := by
    rw [magnitude_eq, exponent_eq, h, hsignificand]
    simp
  exact decide_eq_true hmagnitude

/-- Numbers of one format that have the value of one number do not differ, but for NaNs. -/
theorem SameValue.coincide (hx : x.SameValue z) (hy : y.SameValue z) :
    x.isNaN ∧ y.isNaN ∨ x = y := by
  simp only [SameValue, isNaN, isInfinite, isFinite, decide_eq_true_eq] at hx hy ⊢
  -- A number is of one kind only, so both have their value in the same way.
  rcases hx with ⟨hx, hz⟩ | ⟨hx, hz, hsign⟩ | ⟨-, hz, hsign, hscaled⟩ <;>
    rcases hy with ⟨hy, hz'⟩ | ⟨hy, hz', hsign'⟩ | ⟨-, hz', hsign', hscaled'⟩ <;>
    try omega
  · exact .inr (eq_of_magnitude_eq (hsign.trans hsign'.symm) (hx.trans hy.symm))
  · refine .inr (eq_of_magnitude_eq (hsign.trans hsign'.symm) (magnitude_eq_of_absScaled_eq ?_))
    exact Nat.eq_of_mul_eq_mul_right (Nat.two_pow_pos _) (hscaled.trans hscaled'.symm)

theorem SameValue.isNaN_of_isNaN (h : x.SameValue z) (hz : z.isNaN) : x.isNaN := by
  simp only [SameValue, isNaN, isInfinite, isFinite, decide_eq_true_eq] at h hz ⊢
  omega

theorem SameValue.isZero_of_isZero (h : x.SameValue z) (hz : z.isZero) (hg : 0 < g.infinity) :
    x.isZero := by
  have hmagnitude : z.magnitude = 0 := of_decide_eq_true hz
  simp only [SameValue, isNaN, isInfinite, isFinite, decide_eq_true_eq, hmagnitude] at h
  rcases h with ⟨-, hinfinity⟩ | ⟨-, hinfinity, -⟩ | ⟨-, -, -, hscaled⟩
  · omega
  · omega
  · rw [absScaled_of_isZero hz, Nat.zero_mul] at hscaled
    exact isZero_of_absScaled_eq_zero
      ((Nat.mul_eq_zero.1 hscaled).resolve_right (Nat.ne_of_gt (Nat.two_pow_pos _)))

/-- To widen numbers makes no others coincide. -/
theorem coincide_convert_iff {x y : Single} :
    (x.convert .double).Coincide (y.convert .double) ↔ x.Coincide y := by
  have hx := sameValue_convert x
  have hy := sameValue_convert y
  constructor
  · rintro (⟨hzero, hzero'⟩ | ⟨hnan, hnan'⟩ | heq)
    · exact .inl ⟨hx.isZero_of_isZero hzero (by decide), hy.isZero_of_isZero hzero' (by decide)⟩
    · exact .inr (.inl ⟨hx.isNaN_of_isNaN hnan, hy.isNaN_of_isNaN hnan'⟩)
    · exact .inr (hx.coincide (heq ▸ hy))
  · rintro (⟨hzero, hzero'⟩ | ⟨hnan, hnan'⟩ | rfl)
    · exact .inl ⟨isZero_convert hzero, isZero_convert hzero'⟩
    · exact .inr (.inl ⟨isNaN_convert hnan, isNaN_convert hnan'⟩)
    · exact .inr (.inr rfl)

end Binary

/-! ### Held script values -/

/-- Where a character occurs in neither of two beginnings, it tells where they end. -/
theorem eq_of_append_cons_eq {c : Char} {l l' m m' : List Char} (hl : c ∉ l) (hl' : c ∉ l')
    (h : l ++ c :: m = l' ++ c :: m') : l = l' ∧ m = m' := by
  induction l generalizing l' with
  | nil =>
    cases l' with
    | nil => exact ⟨rfl, (List.cons.inj h).2⟩
    | cons b _ => exact absurd (List.cons.inj h).1 fun hb => hl' (hb ▸ List.mem_cons_self)
  | cons a _ ih =>
    cases l' with
    | nil => exact absurd (List.cons.inj h).1 fun ha => hl (ha ▸ List.mem_cons_self)
    | cons b _ =>
      obtain ⟨rfl, htail⟩ := List.cons.inj h
      obtain ⟨rfl, rfl⟩ := ih (fun hc => hl (.tail _ hc)) (fun hc => hl' (.tail _ hc)) htail
      exact ⟨rfl, rfl⟩

namespace Script.Value

variable {s t : Value} {x : String}

/-- Held script values that are not told apart: a thing and itself, symbols of one number, or values
of one type, other than symbols, that have one text. -/
inductive SameHeld : Value → Value → Prop
  | reference {s : Value} (h : s.isObject) : SameHeld s s
  | symbol {a b : Symbol} (h : a.id = b.id) : SameHeld (.symbol a) (.symbol b)
  | text {s t : Value} {x : String} (hsymbol : s.typeTag ≠ "symbol") (htag : s.typeTag = t.typeTag)
    (hs : s.primitiveText? = some x) (ht : t.primitiveText? = some x) : SameHeld s t

/-- Values that are not told apart have types of one name. -/
theorem SameHeld.typeTag_eq (h : s.SameHeld t) : s.typeTag = t.typeTag := by
  cases h with
  | reference => rfl
  | symbol => rfl
  | text _ htag => exact htag

theorem colon_notMem_typeTag (s : Value) : ':' ∉ s.typeTag.toList := by
  cases s <;> simp [typeTag]

/-- Names of types with texts after them are the same just if both parts are. -/
theorem tagged_eq_tagged_iff {y : String} : s.typeTag ++ ":" ++ x = t.typeTag ++ ":" ++ y ↔
    s.typeTag = t.typeTag ∧ x = y := by
  constructor
  · intro h
    have hlist := congrArg String.toList h
    simp only [String.toList_append, List.append_assoc] at hlist
    obtain ⟨htag, htext⟩ := eq_of_append_cons_eq (colon_notMem_typeTag s) (colon_notMem_typeTag t)
      hlist
    exact ⟨String.toList_inj.1 htag, String.toList_inj.1 htext⟩
  · rintro ⟨htag, rfl⟩
    rw [htag]

/-- A value is a thing, a symbol, or it has a text. -/
theorem isObject_or_symbol_or_text (s : Value) : s.isObject ∨ (∃ a, s = .symbol a) ∨
    s.typeTag ≠ "symbol" ∧ ∃ x, s.primitiveText? = some x := by
  cases s <;> simp [isObject, typeTag, primitiveText?]

theorem eq_of_identity_eq (hs : s.isObject) (h : s.identity = t.identity) : s = t := by
  cases s <;> simp [isObject] at hs <;> cases t <;> simp_all [identity]

theorem identity_of_text (hs : s.typeTag ≠ "symbol") (hx : s.primitiveText? = some x) :
    s.identity = .tagged (s.typeTag ++ ":" ++ x) := by
  cases s <;> simp_all [identity, typeTag, primitiveText?]

/-- What the host tells held values by tells all of them apart that are not the same. -/
theorem identity_eq_identity_iff : s.identity = t.identity ↔ s.SameHeld t := by
  constructor
  · intro h
    obtain hs | ⟨a, rfl⟩ | ⟨hs, x, hx⟩ := isObject_or_symbol_or_text s
    · obtain rfl := eq_of_identity_eq hs h
      exact .reference hs
    · cases t <;> simp [identity] at h
      exact .symbol h
    · obtain ht | ⟨b, rfl⟩ | ⟨ht, y, hy⟩ := isObject_or_symbol_or_text t
      · obtain rfl := eq_of_identity_eq ht h.symm
        exact .reference ht
      · rw [identity_of_text hs hx] at h
        cases h
      · rw [identity_of_text hs hx, identity_of_text ht hy, Identity.tagged.injEq,
          tagged_eq_tagged_iff] at h
        obtain ⟨htag, rfl⟩ := h
        exact .text hs htag hx hy
  · rintro (_ | h | ⟨hsymbol, htag, hs, ht⟩)
    · rfl
    · exact congrArg Identity.symbol h
    · rw [identity_of_text hsymbol hs, identity_of_text (htag ▸ hsymbol) ht, htag]

end Script.Value

/-! ### Values -/

namespace Host.Value

variable {a b : Value}

/-- The number of a value's type. -/
def typeNumber : Value → Nat
  | .null => 0
  | .boolean _ => 1
  | .byte _ => 2
  | .character _ => 3
  | .short _ => 4
  | .integer _ => 5
  | .long _ => 6
  | .float _ => 7
  | .double _ => 8
  | .bigInteger _ => 9
  | .string _ => 10
  | .object _ => 11
  | .script _ => 12

/-- The number that a contribution to a hash begins with. -/
def HashFeed.tag : HashFeed → Nat
  | .nothing => 0
  | .flag _ => 1
  | .number tag _ | .bits tag _ => tag
  | .text _ => 10
  | .object _ => 11
  | .script _ => 12

/-- The number of its type is the first that a value contributes to a hash. -/
theorem tag_hashFeed (a : Value) : a.hashFeed.tag = a.typeNumber := by
  cases a <;> rfl

theorem typeNumber_eq_of_beq (h : a == b) : a.typeNumber = b.typeNumber := by
  rw [← tag_hashFeed, (beq_iff_hashFeed_eq a b).1 h, tag_hashFeed]

theorem primitive?_eq_of_typeNumber_eq (h : a.typeNumber = b.typeNumber) :
    a.primitive? = b.primitive? := by
  cases a <;> cases b <;> first | rfl | cases h

/-- The values that are equal to nothing but themselves: all but floating-point numbers and held
script values. -/
def isExact : Value → Bool
  | .float _ | .double _ | .script _ => false
  | _ => true

theorem beq_iff_eq_of_isExact (ha : a.isExact) : a == b ↔ a = b := by
  refine ⟨fun h => ?_, fun h => h ▸ BEq.rfl⟩
  change a.same b = true at h
  cases a <;> simp [isExact] at ha <;> cases b <;> simp_all [same]

theorem float_beq_float_iff_coincide {x y : Single} : Value.float x == .float y ↔ x.Coincide y :=
  (float_beq_float_iff.trans double_beq_double_iff).trans Binary.coincide_convert_iff

theorem script_beq_script_iff {s t : Script.Value} : Value.script s == .script t ↔ s.SameHeld t :=
  decide_eq_true_iff.trans Script.Value.identity_eq_identity_iff

end Host.Value

open Host (Value)

/-- Host equality is fit for sets and maps. It is an equivalence, and values are equal just if they
contribute the same to a hash, which begins with the number of their type, so that values of two
types are never equal and whatever hasher there is makes the same of equal ones. Values other than
floating-point numbers and held script values are equal to nothing but themselves, objects among
them. Numbers of one format are equal just if they coincide, and held script values just if they are
the same thing, the same symbol, or have one text and types of one name; so their types have one
name in any case. -/
theorem host_equality_hashed :
    Equivalence (fun a b : Value => (a == b) = true) ∧
    (∀ a b : Value, a == b ↔ a.hashFeed = b.hashFeed) ∧
    (∀ a : Value, a.hashFeed.tag = a.typeNumber) ∧
    (∀ a b : Value, a == b → a.typeNumber = b.typeNumber ∧ a.primitive? = b.primitive? ∧
      ∀ hasher, a.hashCode hasher = b.hashCode hasher) ∧
    (∀ a b : Value, a.isExact → (a == b ↔ a = b)) ∧
    (∀ x y : Double, Value.double x == .double y ↔ x.Coincide y) ∧
    (∀ x y : Single, Value.float x == .float y ↔ x.Coincide y) ∧
    (∀ s t : Script.Value, Value.script s == .script t ↔ s.SameHeld t) ∧
    (∀ s t : Script.Value, Value.script s == .script t → s.typeTag = t.typeTag) := by
  refine ⟨⟨fun _ => BEq.rfl, BEq.symm, BEq.trans⟩, Value.beq_iff_hashFeed_eq, Value.tag_hashFeed,
    fun a b h => ?_, fun a b => Value.beq_iff_eq_of_isExact,
    fun x y => Value.double_beq_double_iff, fun x y => Value.float_beq_float_iff_coincide,
    fun s t => Value.script_beq_script_iff,
    fun s t h => (Value.script_beq_script_iff.1 h).typeTag_eq⟩
  have htype := Value.typeNumber_eq_of_beq h
  exact ⟨htype, Value.primitive?_eq_of_typeNumber_eq htype, Value.hashCode_eq_of_beq h⟩

/-- A NaN with a sign and a payload of its own is found under the hash of the quiet one, an object
is told from all others, and whole numbers of two variants are held as one under the name of their
type. -/
theorem host_equality_hashed_NaN :
    (∀ hasher, (Value.double (.nan .double)).hashCode hasher =
      (Value.double ⟨0xFFF0000000000001⟩).hashCode hasher) ∧
    ¬Value.object ⟨0⟩ == .object ⟨1⟩ ∧
    Value.script (.integer 7) == .script (.long 7) ∧
    (Script.Value.integer 7).typeTag = (Script.Value.long 7).typeTag := by
  obtain ⟨-, -, -, hequal, hexact, hdouble, -, hscript, htag⟩ := host_equality_hashed
  have hheld : Value.script (.integer 7) == .script (.long 7) :=
    (hscript _ _).2 (.text (by decide) rfl rfl rfl)
  refine ⟨(hequal _ _ ((hdouble _ _).2 (.inr (.inl ⟨by decide, by decide⟩)))).2.2, ?_, hheld,
    htag _ _ hheld⟩
  exact fun h => absurd ((hexact _ _ rfl).1 h) (by decide)

end Membrane
