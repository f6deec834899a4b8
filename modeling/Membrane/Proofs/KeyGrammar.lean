import Membrane.Proofs.Readers
import Mathlib.Data.Nat.Digits.Defs

/-!
# The grammar of index keys

Which texts stand for an index is decided digit by digit, up to the first number that no index
reaches. Here it is said without reading: a text stands for an index if it consists of digits, of
which there is one at least, and their value in base ten is the index. Zeros in front make no
difference, and no text stands for two indices. The keys that a list or an array prints for its
items are such texts, and each is read as the index it was printed from.

## Main definitions

* `Numeral.decimalValue`: the value of digits in base ten, by their places.
* `SpellsIndex`: that a text stands for an index.

## Main results

* `indexKey?_eq_some_iff`: which index a text is read as.
* `index_keys_spelled`: reading is by the grammar, and undoes printing.
-/

namespace Membrane

/-- The value of digits in base ten: the last one counts once, and each one ten times as much as the
one after it. -/
def Numeral.decimalValue (cs : List Char) : Nat :=
  Nat.ofDigits 10 (cs.reverse.map fun c => c.toNat - '0'.toNat)

/-- A text stands for an index: it consists of digits, of which there is one at least, and the index
is their value, which a signed number of 32 bits can hold. -/
structure SpellsIndex (name : String) (i : Nat) : Prop where
  /-- There is a digit. -/
  nonempty : name ≠ ""
  /-- All characters are digits. -/
  digits : ∀ c ∈ name.toList, '0' ≤ c ∧ c ≤ '9'
  /-- The index is the value of the digits. -/
  value : Numeral.decimalValue name.toList = i
  /-- The index is one of 32 bits. -/
  bounded : i ≤ 2147483647

/-- To read digits from the first to the last is to add them up by their places. -/
theorem Numeral.digitsValue_eq_decimalValue (cs : List Char) :
    digitsValue cs = decimalValue cs := by
  unfold decimalValue
  rw [Nat.ofDigits_eq_foldr, List.foldr_map, List.foldr_reverse]
  exact congrFun (congrFun (congrArg List.foldl (funext₂ fun n c => Nat.add_comm _ _)) 0) cs

theorem isDigitString_iff {name : String} :
    IsDigitString name ↔ name ≠ "" ∧ ∀ c ∈ name.toList, '0' ≤ c ∧ c ≤ '9' := by
  simp only [IsDigitString, Numeral.isDigit, Bool.and_eq_true, decide_eq_true_eq]

/-- Only digit strings are read. -/
theorem indexKey?_eq_none_of_not {name : String} (h : ¬IsDigitString name) :
    indexKey? name = none := by
  have hdigits : (name.toList.isEmpty || !name.toList.all Numeral.isDigit) = true := by
    by_contra hnot
    exact h (by simpa [IsDigitString] using hnot)
  unfold indexKey?
  simp only [hdigits, if_true]

/-- A text is read as the index that it stands for. -/
theorem indexKey?_eq_some_iff {name : String} {i : Nat} :
    indexKey? name = some i ↔ SpellsIndex name i := by
  by_cases hname : IsDigitString name
  · obtain ⟨hnonempty, hdigits⟩ := isDigitString_iff.1 hname
    rw [indexKey?_of_isDigitString hname, Numeral.digitsValue_eq_decimalValue]
    constructor
    · intro h
      split_ifs at h with hbounded
      cases h
      exact ⟨hnonempty, hdigits, rfl, hbounded⟩
    · rintro ⟨-, -, rfl, hbounded⟩
      exact if_pos hbounded
  · rw [indexKey?_eq_none_of_not hname]
    exact iff_of_false nofun fun h => hname (isDigitString_iff.2 ⟨h.nonempty, h.digits⟩)

/-- A text is not read if it stands for no index. -/
theorem indexKey?_eq_none_iff {name : String} :
    indexKey? name = none ↔ name = "" ∨ (∃ c ∈ name.toList, ¬('0' ≤ c ∧ c ≤ '9')) ∨
      2147483647 < Numeral.decimalValue name.toList := by
  rw [Option.eq_none_iff_forall_ne_some]
  constructor
  · intro hnone
    by_contra! h
    obtain ⟨hnonempty, hdigits, hbounded⟩ := h
    exact hnone _ (indexKey?_eq_some_iff.2 ⟨hnonempty, hdigits, rfl, hbounded⟩)
  · rintro h i hi
    obtain ⟨hnonempty, hdigits, rfl, hbounded⟩ := indexKey?_eq_some_iff.1 hi
    obtain rfl | ⟨c, hc, hnot⟩ | hbeyond := h
    · exact hnonempty rfl
    · exact hnot (hdigits c hc)
    · exact Nat.not_lt.2 hbounded hbeyond

/-! ### Printed indices -/

namespace Numeral

/-- One more digit counts once, and those before it ten times as much as they did. -/
theorem digitsValue_concat (cs : List Char) (c : Char) :
    digitsValue (cs ++ [c]) = 10 * digitsValue cs + (c.toNat - '0'.toNat) := by
  rw [digitsValue, List.foldl_append]
  rfl

/-- A digit is the text of its value. -/
theorem toDigits_of_isDigit {c : Char} (h : '0' ≤ c ∧ c ≤ '9') :
    c.toNat - '0'.toNat < 10 ∧ Nat.toDigits 10 (c.toNat - '0'.toNat) = [c] := by
  have hrange : 48 ≤ c.toNat ∧ c.toNat ≤ 57 := h
  have hlt : c.toNat - '0'.toNat < 10 := by
    change c.toNat - 48 < 10
    omega
  refine ⟨hlt, ?_⟩
  rw [Nat.toDigits_of_lt_base hlt, List.singleton_inj, ← Char.toNat_inj,
    Nat.toNat_digitChar_of_lt_ten hlt]
  change 48 + (c.toNat - 48) = c.toNat
  omega

/-- Digits are those that their value is printed with, after zeros. -/
theorem exists_zeros_toDigits {cs : List Char} (hne : cs ≠ [])
    (hdigits : ∀ c ∈ cs, '0' ≤ c ∧ c ≤ '9') :
    ∃ k, cs = List.replicate k '0' ++ Nat.toDigits 10 (digitsValue cs) := by
  induction cs using List.reverseRecOn with
  | nil => exact absurd rfl hne
  | append_singleton cs c ih =>
    obtain ⟨hlt, hc⟩ := toDigits_of_isDigit (hdigits c (by simp))
    rw [digitsValue_concat]
    by_cases hfirst : cs = []
    · subst hfirst
      refine ⟨0, ?_⟩
      rw [List.replicate_zero, List.nil_append, List.nil_append, digitsValue, List.foldl_nil,
        Nat.mul_zero, Nat.zero_add, hc]
    · obtain ⟨k, hk⟩ := ih hfirst fun c hc => hdigits c (List.mem_append_left _ hc)
      obtain hzero | hpos := Nat.eq_zero_or_pos (digitsValue cs)
      · refine ⟨k + 1, ?_⟩
        rw [hzero, Nat.mul_zero, Nat.zero_add, hc, List.replicate_succ']
        rw [hzero] at hk
        exact congrArg (· ++ [c]) hk
      · refine ⟨k, ?_⟩
        rw [← Nat.toDigits_append_toDigits (by decide) hpos hlt, hc, ← List.append_assoc, ← hk]

/-- Zeros in front do not count. -/
theorem digitsValue_zeros (k n : Nat) :
    digitsValue (List.replicate k '0' ++ Nat.toDigits 10 n) = n := by
  induction k with
  | zero => exact digitsValue_toDigits n
  | succ k ih => exact ih

end Numeral

/-- The text of an index with zeros in front of it is a digit string. -/
theorem isDigitString_zeros {name : String} {k i : Nat}
    (h : name.toList = List.replicate k '0' ++ (toString i).toList) : IsDigitString name := by
  obtain ⟨hprinted, hdigits⟩ := isDigitString_toString i
  refine ⟨fun hempty => hprinted ?_, fun c hc => ?_⟩
  · rw [hempty] at h
    exact String.toList_inj.1 (List.append_eq_nil_iff.1 h.symm).2
  · rw [h, List.mem_append] at hc
    obtain hzero | hdigit := hc
    · rw [List.eq_of_mem_replicate hzero]
      decide
    · exact hdigits c hdigit

/-- The texts that are read as an index are the one it is printed as and those with zeros in front
of that. -/
theorem indexKey?_eq_some_iff_printed {name : String} {i : Nat} :
    indexKey? name = some i ↔ i ≤ 2147483647 ∧
      ∃ k, name.toList = List.replicate k '0' ++ (toString i).toList := by
  have hdigits : (toString i).toList = Nat.toDigits 10 i := by
    rw [Nat.toString_eq_repr, Nat.toList_repr]
  constructor
  · intro h
    obtain ⟨hnonempty, hname, rfl, hbounded⟩ := indexKey?_eq_some_iff.1 h
    rw [hdigits, ← Numeral.digitsValue_eq_decimalValue]
    rw [← Numeral.digitsValue_eq_decimalValue] at hbounded
    exact ⟨hbounded, Numeral.exists_zeros_toDigits (by simpa using hnonempty) hname⟩
  · rintro ⟨hbounded, k, hk⟩
    rw [indexKey?_of_isDigitString (isDigitString_zeros hk), hk, hdigits,
      Numeral.digitsValue_zeros, if_pos hbounded]

/-! ### Keys -/

/-- A text is read as an index if and only if it consists of digits, of which there is one at least,
and the index is their value in base ten, which has to be a signed number of 32 bits. In all other
cases it is not read. So an index is read from the text it is printed as, and otherwise from that
text with zeros in front of it. A list or an array that has no more items than there are such
indices prints one key for each of them, and each key is read as the index it was printed from. -/
theorem index_keys_spelled :
    (∀ name i, indexKey? name = some i ↔ SpellsIndex name i) ∧
      (∀ name, indexKey? name = none ↔ name = "" ∨ (∃ c ∈ name.toList, ¬('0' ≤ c ∧ c ≤ '9')) ∨
        2147483647 < Numeral.decimalValue name.toList) ∧
      (∀ i ≤ 2147483647, indexKey? (toString i) = some i) ∧
      (∀ name i, indexKey? name = some i ↔ i ≤ 2147483647 ∧
        ∃ k, name.toList = List.replicate k '0' ++ (toString i).toList) ∧
      ∀ (w : World) (r : Ref .handler) (h : Handler) (items : List Host.Value),
        w.handlers.get? r = some h → w.HoldsItems h.target items → items.length ≤ 2147483647 →
        ∃ keys, Run.ownKeys r w = .ok keys w ∧ keys.length = items.length ∧
          ∀ i key, keys[i]? = some key →
            indexKey? key = some i ∧ w.element? h.target key = items[i]? := by
  refine ⟨fun _ _ => indexKey?_eq_some_iff, fun _ => indexKey?_eq_none_iff,
    fun _ hi => indexKey?_toString hi, fun _ _ => indexKey?_eq_some_iff_printed, ?_⟩
  intro w r h items hr hitems hsize
  refine ⟨_, ownKeys_of_holdsItems hitems hr, by simp, fun i key hkey => ?_⟩
  obtain ⟨hi, rfl⟩ := List.getElem?_eq_some_iff.1 hkey
  rw [List.length_map, List.length_range] at hi
  rw [List.getElem_map, List.getElem_range, element?_of_holdsItems hitems, indexKey?_of_lt hsize hi]
  exact ⟨rfl, rfl⟩

/-- The world with one list and a handler that answers for it. -/
def World.ofProxiedItems (items : List Host.Value) : World :=
  { World.ofItems items with
    handlers := ({} : Store .handler Handler).alloc (onlyListHandler Config.standard) }

/-- Zeros in front make no difference, digits of other scripts are none, and the number after the
largest index is none either. A list of two items has two keys, of which the second is read as the
index of the second item. -/
theorem index_keys_spelled_withZeros :
    indexKey? "0042" = some 42 ∧ indexKey? "\u0663" = none ∧ indexKey? "2147483648" = none ∧
      indexKey? (toString 2147483647) = some 2147483647 ∧
      ∃ keys, Run.ownKeys ⟨0⟩ (World.ofProxiedItems [.string "a", .null]) =
          .ok keys (World.ofProxiedItems [.string "a", .null]) ∧ keys.length = 2 ∧
        ∀ i key, keys[i]? = some key → indexKey? key = some i ∧
          (World.ofProxiedItems [.string "a", .null]).element? onlyList key =
            [.string "a", .null][i]? := by
  obtain ⟨-, hnone, hprinted, hzeros, hkeys⟩ := index_keys_spelled
  exact ⟨(hzeros "0042" 42).2 ⟨by decide, 2, by decide⟩,
    (hnone "\u0663").2 (.inr (.inl ⟨'\u0663', by decide, by decide⟩)),
    (hnone "2147483648").2 (.inr (.inr (by decide))), hprinted 2147483647 (by decide),
    hkeys _ ⟨0⟩ (onlyListHandler Config.standard) [.string "a", .null] rfl (.inl rfl) (by decide)⟩

end Membrane
