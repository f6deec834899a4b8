import Membrane.Proofs.Exposure

/-!
# Names of accessors

The accessor of a property is a method whose name ends in the name of the property with a capital
first letter. So whatever beginnings a configuration gives, a method with a name in small letters is
no accessor.

## Main definitions

* `Text.isSmallLatin`: the code points of small Latin letters.

## Main results

* `Text.exists_capital`: how the capital form of a character starts.
* `Descriptor.exists_suffix_of_accessor?`, `Descriptor.all_isSmallLatin_of_accessor?`: the name of
  an accessor.
-/

namespace Membrane

open Host (Method)

/-! ### Capital letters -/

namespace Text

/-- Whether a code point is that of a small letter of the Latin alphabet. -/
def isSmallLatin (n : Nat) : Bool := 97 ≤ n && n ≤ 122

/-- What a run maps code points to lies between the images of its ends. -/
theorem CaseRun.image?_bounds {r : CaseRun} {n m : Nat} (h : r.image? n = some m) :
    r.target ≤ m ∧ m ≤ r.target + (r.last - r.first) := by
  unfold image? at h
  split at h
  · next hcontains =>
    have hlast : n ≤ r.last := by
      simp only [contains, Bool.and_eq_true, decide_eq_true_eq] at hcontains
      exact hcontains.1.2
    cases h
    omega
  · cases h

/-- No capital form of one character is a small Latin letter. -/
theorem isSmallLatin_of_mapCase {n m : Nat} (h : mapCase CaseTable.capitals n = some m) :
    isSmallLatin m = false := by
  obtain ⟨r, hr, himage⟩ := List.exists_of_findSome?_eq_some h
  have hruns : ∀ r ∈ CaseTable.capitals,
      122 < r.target ∨ r.target + (r.last - r.first) < 97 := by decide +kernel
  have hbounds := CaseRun.image?_bounds himage
  have hrun := hruns r hr
  simp only [isSmallLatin, Bool.and_eq_false_iff, decide_eq_false_iff_not]
  omega

/-- Every small Latin letter has a capital form of one character. -/
theorem isSome_mapCase_of_isSmallLatin {n : Nat} (h : isSmallLatin n = true) :
    (mapCase CaseTable.capitals n).isSome = true := by
  have hletters : ∀ i < 26, (mapCase CaseTable.capitals (97 + i)).isSome = true := by
    decide +kernel
  simp only [isSmallLatin, Bool.and_eq_true, decide_eq_true_eq] at h
  have hn : 97 + (n - 97) = n := by omega
  have := hletters (n - 97) (by omega)
  rwa [hn] at this

/-- A code point that is no character stands for the character zero. -/
theorem isSmallLatin_ofNat {n : Nat} (h : isSmallLatin n = false) :
    isSmallLatin (Char.ofNat n).toNat = false := by
  by_cases hvalid : n.isValidChar
  · rw [Char.ofNat, dif_pos hvalid]
    exact h
  · rw [Char.ofNat, dif_neg hvalid]
    rfl

/-- The capital form of a character starts with no small Latin letter. -/
theorem exists_capital (c : Char) :
    ∃ x rest, capital c = x :: rest ∧ isSmallLatin x.toNat = false := by
  unfold capital
  cases hexpanded : CaseTable.expandedCapitals.lookup c.toNat with
  | some ns =>
    have hheads : ∀ e ∈ CaseTable.expandedCapitals, e.2.head?.any (!isSmallLatin ·) = true := by
      decide +kernel
    obtain ⟨before, after, htable, -⟩ := List.lookup_eq_some_iff.1 hexpanded
    have hhead := hheads (c.toNat, ns) (htable ▸ List.mem_append_right _ List.mem_cons_self)
    cases ns with
    | nil => cases hhead
    | cons n ns => exact ⟨_, _, rfl, isSmallLatin_ofNat (by simpa using hhead)⟩
  | none =>
    refine ⟨_, _, rfl, ?_⟩
    cases hmap : mapCase CaseTable.capitals c.toNat with
    | some m => exact isSmallLatin_ofNat (isSmallLatin_of_mapCase hmap)
    | none =>
      by_contra hsmall
      have hc : isSmallLatin c.toNat = true := Bool.of_not_eq_false hsmall
      have hsome := isSome_mapCase_of_isSmallLatin hc
      rw [hmap] at hsome
      cases hsome

end Text

/-! ### Accessors -/

namespace Descriptor

variable {config : Config} {c : Host.Class} {isStatic : Bool} {beginnings : List String}
  {count : Nat} {name : String} {m : Method}

/-- The name of an accessor ends in that of the property, with a capital first letter. -/
theorem exists_suffix_of_accessor?
    (h : (build config c isStatic).accessor? beginnings count name = some m) :
    m ∈ methodSequence c isStatic ∧ m.arity = some count ∧
      ∃ suffix, Text.capitalize? name.toList = some suffix ∧ suffix <:+ m.name.toList := by
  unfold accessor? at h
  split at h
  · cases h
  · split at h
    · cases h
    · next suffix hsuffix =>
      obtain ⟨lead, -, hlead⟩ := List.exists_of_findSome?_eq_some h
      rw [overload?_build] at hlead
      have hfound := List.find?_some hlead
      obtain ⟨hname, harity⟩ : m.name = lead ++ String.ofList suffix ∧ m.arity = some count := by
        simpa using hfound
      refine ⟨List.mem_of_find?_eq_some hlead, harity, suffix, hsuffix, ?_⟩
      rw [hname, String.toList_append, String.toList_ofList]
      exact List.suffix_append _ _

/-- Where no method ends in the name of a property with a capital first letter, none is an accessor
for it. -/
theorem accessor?_eq_none
    (hnone : (Text.capitalize? name.toList).any (fun suffix =>
      (methodSequence c isStatic).any (suffix.isSuffixOf ·.name.toList)) = false) :
    (build config c isStatic).accessor? beginnings count name = none := by
  refine Option.eq_none_iff_forall_ne_some.2 fun m hm => Bool.eq_false_iff.1 hnone ?_
  obtain ⟨hmem, -, suffix, hcapital, hsuffix⟩ := exists_suffix_of_accessor? hm
  rw [hcapital, Option.any_some]
  exact List.any_eq_true.2 ⟨m, hmem, List.isSuffixOf_iff_suffix.2 hsuffix⟩

theorem mem_methodSequence_of_accessor?
    (h : (build config c isStatic).accessor? beginnings count name = some m) :
    m ∈ methodSequence c isStatic ∧ m.arity = some count :=
  (exists_suffix_of_accessor? h).imp_right And.left

/-- The name of an accessor is not in small letters. -/
theorem all_isSmallLatin_of_accessor?
    (h : (build config c isStatic).accessor? beginnings count name = some m) :
    m.name.toList.all (Text.isSmallLatin ·.toNat) = false := by
  obtain ⟨-, -, suffix, hcapital, hsuffix⟩ := exists_suffix_of_accessor? h
  cases hname : name.toList with
  | nil =>
    rw [hname] at hcapital
    cases hcapital
  | cons first rest =>
    obtain ⟨x, others, hfirst, hx⟩ := Text.exists_capital first
    rw [hname, Text.capitalize?, hfirst, Option.some.injEq] at hcapital
    refine List.all_eq_false.2 ⟨x, hsuffix.subset ?_, by simp [hx]⟩
    rw [← hcapital]
    exact List.mem_cons_self

end Descriptor

end Membrane
