import Membrane.Proofs.Accessors
import Mathlib.Data.List.Chain

/-!
# Small forms and back

The name of a property is that of its getter with the first letter in small form, and the getter is
found again by the capital form of that letter. The two forms undo each other for all upper-case
letters but six, whose small form has another capital form or one of several characters.

The mappings are given by tables of runs, and it is run by run that they are checked to undo each
other.

## Main definitions

* `Text.oneWayCapitals`: the letters that do not come back.
* `Text.CaseRun.points`: the code points of a run.
* `Text.CaseRun.seek?`: the only run of a table that may contain a code point.
* `Text.CaseRun.Before`: the order of the runs of a table.

## Main results

* `Text.capitalize?_small_iff`: the capital form of the small form of an upper-case letter.
-/

namespace Membrane.Text

/-- The code points of the upper-case letters that are not the capital form of their small form:
`İ`, whose small form is `i` and a dot, the capital theta symbol, the capital sharp s, and the signs
of ohm, kelvin and angstrom. -/
def oneWayPoints : List Nat := [0x130, 0x3F4, 0x1E9E, 0x2126, 0x212A, 0x212B]

/-- The upper-case letters that are not the capital form of their small form. -/
def oneWayCapitals : List Char := oneWayPoints.map Char.ofNat

/-! ### Runs -/

namespace CaseRun

variable {r r' : CaseRun} {n m : Nat} {table : List CaseRun}

/-- The code points that lie on a run. -/
def points (r : CaseRun) : List Nat :=
  (List.range ((r.last - r.first) / r.step + 1)).map fun i => r.first + r.step * i

/-- The first run of a table that does not end before a code point. -/
def seek? (table : List CaseRun) (n : Nat) : Option CaseRun := table.find? (n.ble ·.last)

theorem bounds_of_contains (h : r.contains n = true) : r.first ≤ n ∧ n ≤ r.last := by
  simp only [contains, Bool.and_eq_true, decide_eq_true_eq] at h
  exact h.1

theorem mem_points (h : r.contains n = true) : n ∈ r.points := by
  obtain ⟨hfirst, hlast⟩ := bounds_of_contains h
  simp only [contains, Bool.and_eq_true, decide_eq_true_eq] at h
  refine List.mem_map.2 ⟨(n - r.first) / r.step, List.mem_range.2 ?_, ?_⟩
  · exact Nat.lt_succ_of_le (Nat.div_le_div_right (by omega))
  · have hdistance := Nat.div_add_mod (n - r.first) r.step
    omega

theorem contains_of_image? (h : r.image? n = some m) : r.contains n = true := by
  unfold image? at h
  split at h
  · assumption
  · cases h

/-- One run ends before another starts. -/
def Before (r r' : CaseRun) : Prop := r.first ≤ r.last ∧ r.last < r'.first

instance : DecidableRel Before := fun _ _ => inferInstanceAs (Decidable (_ ∧ _))

instance : Trans Before Before Before where
  trans h h' := ⟨h.1, Nat.lt_trans (Nat.lt_of_lt_of_le h.2 h'.1) h'.2⟩

section Tables

variable (hruns : table.IsChain Before) (hr : r ∈ table)
include hruns hr

/-- In a table of runs that follow each other, the first that does not end before a code point is no
later than any other that does not. -/
theorem seek?_of_le (h : n ≤ r.last) :
    ∃ r₀, seek? table n = some r₀ ∧ n ≤ r₀.last ∧ (r₀ = r ∨ r₀.Before r) := by
  have hends : n.ble r.last = true := Nat.ble_eq_true_of_le h
  have hfound : (seek? table n).isSome = true := List.find?_isSome.2 ⟨r, hr, hends⟩
  obtain ⟨r₀, hr₀⟩ := Option.isSome_iff_exists.1 hfound
  obtain ⟨hreaches, earlier, later, rfl, hearlier⟩ := List.find?_eq_some_iff_append.1 hr₀
  have hlater := List.pairwise_append.1 (List.isChain_iff_pairwise.1 hruns)
  refine ⟨r₀, hr₀, Nat.le_of_ble_eq_true hreaches, ?_⟩
  obtain hr | hr := List.mem_append.1 hr
  · have hshort := hearlier r hr
    rw [hends] at hshort
    cases hshort
  · obtain rfl | hr := List.mem_cons.1 hr
    · exact .inl rfl
    · exact .inr ((List.pairwise_cons.1 hlater.2.1).1 r hr)

/-- In such a table a code point lies on one run at most. -/
theorem seek?_of_contains (h : r.contains n = true) : seek? table n = some r := by
  obtain ⟨hfirst, hlast⟩ := bounds_of_contains h
  obtain ⟨r₀, hr₀, hreaches, rfl | hbefore⟩ := seek?_of_le hruns hr hlast
  · exact hr₀
  · have := hbefore.2
    omega

/-- Such a table maps a code point as the run does on which it lies. -/
theorem mapCase_of_image? (h : r.image? n = some m) : mapCase table n = some m := by
  have hsome : (mapCase table n).isSome = true :=
    List.findSome?_isSome_iff.2 ⟨r, hr, by rw [h, Option.isSome_some]⟩
  obtain ⟨m', hm'⟩ := Option.isSome_iff_exists.1 hsome
  obtain ⟨r', hr', himage⟩ := List.exists_of_findSome?_eq_some hm'
  have hsame := (seek?_of_contains hruns hr (contains_of_image? h)).symm.trans
    (seek?_of_contains hruns hr' (contains_of_image? himage))
  cases hsame
  rw [hm', ← himage, h]

end Tables

end CaseRun

/-! ### The tables -/

/-- The runs of capital forms follow each other. -/
theorem isChain_capitals : CaseTable.capitals.IsChain CaseRun.Before := by
  decide +kernel

/-- Only characters have a capital form. -/
theorem bounds_of_capitals : ∀ r ∈ CaseTable.capitals,
    r.last < 0xD800 ∨ 0xDFFF < r.first ∧ r.last < 0x110000 := by
  decide +kernel

/-- A character has a capital form of one character or of several, not both. -/
theorem seek?_expandedCapitals : ∀ e ∈ CaseTable.expandedCapitals,
    (CaseRun.seek? CaseTable.capitals e.1).all (!·.contains e.1) = true := by
  decide +kernel

/-- The capital forms undo the small forms of upper-case letters, one-way ones apart. -/
theorem seek?_smalls : ∀ r ∈ CaseTable.smalls,
    (CaseRun.seek? CaseTable.capitals (r.target + (r.last - r.first))).any (fun r' =>
      r.points.all fun n =>
        r'.image? (r.target + (n - r.first)) == some n || oneWayPoints.contains n ||
          CaseTable.title.any (·.contains n)) = true := by
  decide +kernel

/-- Capitals without a small form have no capital form but themselves. -/
theorem seek?_loneCapitals : ∀ r ∈ CaseTable.loneCapitals,
    (CaseRun.seek? CaseTable.capitals r.first).all (r.last < ·.first) = true ∧
      CaseTable.expandedCapitals.all (fun e => e.1 < r.first || r.last < e.1) = true := by
  decide +kernel

/-! ### Letters -/

section Letters

variable {c d : Char} {r : CaseRun} {n : Nat}

theorem toNat_ofNat (h : n.isValidChar) : (Char.ofNat n).toNat = n := by
  rw [Char.ofNat, dif_pos h]
  rfl

/-- The capital form of a character that lies on a run of capital forms. -/
theorem capital_of_image? (hr : r ∈ CaseTable.capitals) (h : r.image? d.toNat = some n) :
    capital d = [Char.ofNat n] := by
  have hexpanded : CaseTable.expandedCapitals.lookup d.toNat = none := by
    refine Option.eq_none_iff_forall_ne_some.2 fun ns hns => ?_
    obtain ⟨before, after, htable, -⟩ := List.lookup_eq_some_iff.1 hns
    have halone := seek?_expandedCapitals (d.toNat, ns)
      (htable ▸ List.mem_append_right _ List.mem_cons_self)
    have hcontains := CaseRun.contains_of_image? h
    rw [CaseRun.seek?_of_contains isChain_capitals hr hcontains, Option.all_some,
      hcontains] at halone
    cases halone
  rw [capital, hexpanded, CaseRun.mapCase_of_image? isChain_capitals hr h]
  rfl

/-- An upper-case letter that has a small form comes back from it, unless it is one-way. -/
theorem capital_small_of_smalls (hc : c ∉ oneWayCapitals)
    (hsmall : CaseTable.smalls.any (·.contains c.toNat) = true)
    (htitle : CaseTable.title.any (·.contains c.toNat) = false) :
    ∃ d, small c = [d] ∧ capital d = [c] := by
  have hpoint : oneWayPoints.contains c.toNat = false := by
    refine Bool.eq_false_iff.2 fun hin => hc (List.mem_map.2 ⟨c.toNat, ?_, Char.ofNat_toNat c⟩)
    exact List.contains_iff_mem.1 hin
  obtain ⟨r, hr, hcontains⟩ := List.any_eq_true.1 hsmall
  have hsome : (mapCase CaseTable.smalls c.toNat).isSome = true := by
    refine List.findSome?_isSome_iff.2 ⟨r, hr, ?_⟩
    rw [CaseRun.image?, if_pos hcontains, Option.isSome_some]
  obtain ⟨m, hm⟩ := Option.isSome_iff_exists.1 hsome
  obtain ⟨r, hr, himage⟩ := List.exists_of_findSome?_eq_some hm
  have hcontains := CaseRun.contains_of_image? himage
  rw [CaseRun.image?, if_pos hcontains, Option.some.injEq] at himage
  obtain ⟨r', hr', hback⟩ := (Option.any_eq_true _ _).1 (seek?_smalls r hr)
  have hcapital : r'.image? m = some c.toNat := by
    have hn := List.all_eq_true.1 hback c.toNat (CaseRun.mem_points hcontains)
    rw [hpoint, htitle, himage, Bool.or_false, Bool.or_false] at hn
    exact beq_iff_eq.1 hn
  have hmem := List.mem_of_find?_eq_some hr'
  have hvalid : m.isValidChar := by
    have hbounds := CaseRun.bounds_of_contains (CaseRun.contains_of_image? hcapital)
    have hrun := bounds_of_capitals r' hmem
    unfold Nat.isValidChar
    omega
  refine ⟨Char.ofNat m, ?_, ?_⟩
  · have hne : c ≠ 'İ' := fun heq => hc (heq ▸ by decide)
    rw [small, if_neg hne, hm]
    rfl
  · have himage' : r'.image? (Char.ofNat m).toNat = some c.toNat := by rwa [toNat_ofNat hvalid]
    rw [capital_of_image? hmem himage', Char.ofNat_toNat]

/-- An upper-case character without a small form is its own small form and capital form. -/
theorem capital_small_of_loneCapitals (hc : c ∉ oneWayCapitals)
    (hsmall : CaseTable.smalls.any (·.contains c.toNat) = false)
    (hlone : CaseTable.loneCapitals.any (·.contains c.toNat) = true) :
    small c = [c] ∧ capital c = [c] := by
  obtain ⟨r, hr, hcontains⟩ := List.any_eq_true.1 hlone
  obtain ⟨hfirst, hlast⟩ := CaseRun.bounds_of_contains hcontains
  obtain ⟨hcapitals, hexpanded⟩ := seek?_loneCapitals r hr
  have hnosmall : mapCase CaseTable.smalls c.toNat = none := by
    refine List.findSome?_eq_none_iff.2 fun r' hr' => if_neg ?_
    simpa using List.any_eq_false.1 hsmall r' hr'
  have hnocapital : mapCase CaseTable.capitals c.toNat = none := by
    refine List.findSome?_eq_none_iff.2 fun r' hr' => if_neg fun hcontains' => ?_
    obtain ⟨hfirst', hlast'⟩ := CaseRun.bounds_of_contains hcontains'
    obtain ⟨r₀, hr₀, -, heq⟩ :=
      CaseRun.seek?_of_le isChain_capitals hr' (Nat.le_trans hfirst hlast')
    rw [hr₀, Option.all_some, decide_eq_true_eq] at hcapitals
    obtain rfl | hbefore := heq
    · omega
    · obtain ⟨hends, hnext⟩ := hbefore
      omega
  have hnone : CaseTable.expandedCapitals.lookup c.toNat = none := by
    refine List.lookup_eq_none_iff.2 fun e he => ?_
    have hapart := List.all_eq_true.1 hexpanded e he
    simp only [Bool.or_eq_true, decide_eq_true_eq] at hapart
    simp only [bne_iff_ne]
    omega
  have hne : c ≠ 'İ' := fun heq => hc (heq ▸ by decide)
  constructor
  · rw [small, if_neg hne, hnosmall]
    rfl
  · rw [capital, hnone, hnocapital]
    rfl

/-- An upper-case letter is the capital form of its small form if and only if it is not one-way. -/
theorem capitalize?_small_iff (h : isCapital c = true) (cs : List Char) :
    capitalize? (small c ++ cs) = some (c :: cs) ↔ c ∉ oneWayCapitals := by
  constructor
  · intro hback hc
    have hheads : oneWayCapitals.all (fun c =>
        (small c).head?.any fun d => (capital d).head? != some c) = true := by
      decide +kernel
    obtain ⟨d, hd, hlost⟩ := (Option.any_eq_true _ _).1 (List.all_eq_true.1 hheads c hc)
    obtain ⟨ds, hds⟩ := List.head?_eq_some_iff.1 hd
    obtain ⟨x, xs, hx, -⟩ := exists_capital d
    rw [hds, List.cons_append, capitalize?, hx, List.cons_append, Option.some.injEq,
      List.cons.injEq] at hback
    rw [hx, hback.1] at hlost
    simp at hlost
  · intro hc
    have hforms : ∃ d, small c = [d] ∧ capital d = [c] := by
      have hne : c ≠ 'İ' := fun heq => hc (heq ▸ by decide)
      simp only [isCapital, if_neg hne] at h
      split at h
      · next hsmall =>
        exact capital_small_of_smalls hc hsmall (by simpa using h)
      · next hsmall =>
        exact ⟨c, capital_small_of_loneCapitals hc (Bool.eq_false_iff.2 hsmall) h⟩
    obtain ⟨d, hsmall, hcapital⟩ := hforms
    rw [hsmall, List.singleton_append, capitalize?, hcapital, List.singleton_append]

end Letters

end Membrane.Text
