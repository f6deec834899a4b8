import Membrane.Proofs.Items
import Membrane.Proofs.Narrowing
import Membrane.Proofs.Sort.Order

/-!
# Sorting by the sign of a number

A script tells with the sign of a number how two elements compare. What the sort looks at is the
number narrowed to 32 bits, so the order of the list is the one the script means just if narrowing
keeps positive what is positive and nothing else. No more is asked of it, as the sort never looks
whether an element is less than another.

## Main definitions

* `PureComparator`: a comparator whose answers depend on the two elements alone.
* `SortsTo`: what a list is sorted to, in place and as a copy.

## Main results

* `sortsTo_outcome`: a list is sorted to what the narrowed numbers give.
* `sortsTo_by_sign`: when that is the order of their signs.
-/

namespace Membrane

open Host (Value)

variable {eng : Engine} {invoke : Invoke} {c : Script.Value} {target : Value}
  {this : Script.Value} {args : List Script.Value} {elements : Value → Prop}
  {num : Value → Value → Script.Value} {calm : World → Prop} {items : List Value} {w : World}

/-- A comparator that answers with the same number whenever it is consulted about two elements, as
long as the world has a property that consulting it keeps. It leaves the host objects alone. -/
structure PureComparator (eng : Engine) (invoke : Invoke) (c : Script.Value)
    (elements : Value → Prop) (num : Value → Value → Script.Value) (calm : World → Prop) :
    Prop where
  /-- It is callable. -/
  callable : c.isFunction = true
  /-- It answers with numbers. -/
  number : ∀ a b, elements a → elements b → (num a b).toNumber?.isSome = true
  /-- Its answers depend on the elements alone. -/
  answers : ∀ a b w, elements a → elements b → calm w →
    ∃ w', OnList.consult eng invoke c a b w = .ok (num a b) w' ∧ calm w' ∧ w'.objects = w.objects
  /-- What is held does not matter to it. -/
  hold : ∀ w held, calm w → calm { w with held := held }

/-- A list in a world is sorted to some elements: sorting changes it to them and gives the receiver,
and sorting a copy leaves the host objects as they are and ends as carrying the elements to the
script does. -/
def SortsTo (eng : Engine) (invoke : Invoke) (target : Value) (this : Script.Value)
    (args : List Script.Value) (w : World) (sorted : List Value) : Prop :=
  (∃ w', OnList.sort eng invoke target this args w = .ok this w' ∧
    w'.list? target = some sorted.toArray) ∧
  ∃ w', OnList.toSorted eng invoke target args w = eng.toScriptArray sorted w' ∧
    w'.objects = w.objects

/-- A list is sorted to one list only. -/
theorem SortsTo.unique {sorted sorted' : List Value}
    (h : SortsTo eng invoke target this args w sorted)
    (h' : SortsTo eng invoke target this args w sorted') : sorted = sorted' := by
  obtain ⟨⟨w₁, hrun, hlist⟩, -⟩ := h
  obtain ⟨⟨w₂, hrun', hlist'⟩, -⟩ := h'
  rw [hrun] at hrun'
  cases hrun'
  rw [hlist] at hlist'
  simpa using hlist'

/-! ### The sort with a pure comparator -/

theorem comparison_eq_ok {a b : Value} {v : Script.Value} {w' : World}
    (h : OnList.consult eng invoke c a b w = .ok v w') :
    OnList.comparison eng invoke c a b w = .ok (compare v.toInt32.toInt 0) w' := by
  unfold OnList.comparison
  rw [Run.bind_of_ok h]
  rfl

/-- The elements end up as any function orders them that agrees with the narrowed numbers on which
of two elements is greater. -/
theorem sorted_eq_ok (hpure : PureComparator eng invoke c elements num calm)
    (hitems : ∀ a ∈ items, elements a) {cmp : Value → Value → Ordering}
    (hcmp : ∀ a ∈ items, ∀ b ∈ items, 0 < (num a b).toInt32.toInt ↔ cmp a b = .gt)
    (hw : calm w) :
    ∃ w', OnList.sorted eng invoke items (some c) w =
        .ok ((mergeSortBy Inquiry.compare items).outcome cmp) w' ∧ w'.objects = w.objects := by
  have hcompare : ∀ a b w₁, a ∈ items → b ∈ items → (calm w₁ ∧ w₁.objects = w.objects) →
      ∃ o w₂, OnList.comparison eng invoke c a b w₁ = .ok o w₂ ∧ (o = .gt ↔ cmp a b = .gt) ∧
        calm w₂ ∧ w₂.objects = w.objects := by
    rintro a b w₁ ha hb ⟨hw₁, hobjects⟩
    obtain ⟨w₂, hconsult, hw₂, hobjects'⟩ := hpure.answers a b w₁ (hitems a ha) (hitems b hb) hw₁
    refine ⟨_, w₂, comparison_eq_ok hconsult, ?_, hw₂, hobjects'.trans hobjects⟩
    rw [Int.compare_eq_gt]
    exact hcmp a ha b hb
  have hheld := hpure.hold w (items.filterMap Value.node? ++ w.held) hw
  obtain ⟨w', hrun, -, hobjects⟩ :=
    Inquiry.conduct_eq_outcome cmp (asks_mergeSortBy items) hcompare ⟨hheld, rfl⟩
  rw [← mergeSortBy_eq_conduct] at hrun
  have hcallable : (some c).filter Script.Value.isFunction = some c := by
    simp [Option.filter, hpure.callable]
  refine ⟨{ w' with held := w.held }, ?_, hobjects⟩
  unfold OnList.sorted
  rw [hcallable]
  change Run.holdOnly w.held (OnList.asComparison _ _) = _
  unfold OnList.asComparison
  rw [hrun]
  rfl

/-- A list of at most one item is as it is in any order. -/
theorem outcome_mergeSortBy_of_length_le {cmp : Value → Value → Ordering}
    (h : ¬ 1 < items.length) : (mergeSortBy Inquiry.compare items).outcome cmp = items := by
  rcases items with - | ⟨a, - | ⟨b, rest⟩⟩
  · rfl
  · rfl
  · exact absurd (by simp) h

/-- A list is sorted as any function orders its items that agrees with the narrowed numbers on which
of two items is greater. -/
theorem sortsTo_outcome (hpure : PureComparator eng invoke c elements num calm)
    (hargs : args[0]? = some c) (hlist : w.list? target = some items.toArray)
    (hitems : ∀ a ∈ items, elements a) {cmp : Value → Value → Ordering}
    (hcmp : ∀ a ∈ items, ∀ b ∈ items, 0 < (num a b).toInt32.toInt ↔ cmp a b = .gt)
    (hw : calm w) :
    SortsTo eng invoke target this args w ((mergeSortBy Inquiry.compare items).outcome cmp) := by
  obtain ⟨w₁, hsorted, hobjects⟩ := sorted_eq_ok hpure hitems hcmp hw
  constructor
  · unfold OnList.sort
    rw [Run.bind_of_ok (listValues_eq_ok hlist), hargs]
    by_cases hmany : 1 < items.length
    · rw [if_pos hmany, Run.bind_of_ok hsorted]
      exact ⟨_, rfl, World.list?_putData ((World.list?_congr hobjects).trans hlist) _⟩
    · rw [if_neg hmany, outcome_mergeSortBy_of_length_le hmany]
      exact ⟨w, rfl, hlist⟩
  · unfold OnList.toSorted
    rw [Run.bind_of_ok (listValues_eq_ok hlist), hargs, Run.bind_of_ok hsorted]
    exact ⟨w₁, rfl, hobjects⟩

/-! ### Signs -/

/-- Two items are sorted by one comparison. -/
theorem outcome_mergeSortBy_pair {α : Type} (cmp : α → α → Ordering) (a b : α) :
    (mergeSortBy Inquiry.compare [a, b]).outcome cmp =
      if cmp a b = .gt then [b, a] else [a, b] := by
  change Inquiry.outcome cmp ((if cmp a b = .gt then _ else _) >>= _ >>= _) = _
  split <;> rfl

/-- How two elements compare by the sign of the number that a comparator answers with. -/
def bySign (num : Value → Value → Script.Value) (a b : Value) : Ordering := (num a b).sign

/-- How they compare by the sign of the narrowed number. -/
def byNarrowedSign (num : Value → Value → Script.Value) (a b : Value) : Ordering :=
  compare (num a b).toInt32.toInt 0

theorem byNarrowedSign_eq_gt_iff (a b : Value) :
    byNarrowedSign num a b = .gt ↔ 0 < (num a b).toInt32.toInt :=
  Int.compare_eq_gt

/-- A list in which narrowing keeps the sign is sorted in the order of the signs. -/
theorem sortsTo_of_keepsPositive (hpure : PureComparator eng invoke c elements num calm)
    (hpre : PreordersOn (bySign num) elements) (hargs : args[0]? = some c)
    (hlist : w.list? target = some items.toArray) (hitems : ∀ a ∈ items, elements a)
    (hkeeps : ∀ a ∈ items, ∀ b ∈ items, (num a b).KeepsPositive) (hw : calm w) :
    ∃ sorted, SortsTo eng invoke target this args w sorted ∧
      StablySorted (bySign num) items sorted :=
  ⟨_, sortsTo_outcome hpure hargs hlist hitems hkeeps hw,
    stablySorted_mergeSortBy (hpre.of_imp hitems)⟩

/-- A list of two elements is sorted in the order of the signs only if narrowing keeps the sign of
the number its one comparison gives. -/
theorem keepsPositive_iff_sortsTo (hpure : PureComparator eng invoke c elements num calm)
    (hpre : PreordersOn (bySign num) elements) (hargs : args[0]? = some c) {a b : Value}
    (ha : elements a) (hb : elements b) (hlist : w.list? target = some #[a, b]) (hw : calm w) :
    (num a b).KeepsPositive ↔ ∃ sorted, SortsTo eng invoke target this args w sorted ∧
      StablySorted (bySign num) [a, b] sorted := by
  have hitems : ∀ x ∈ [a, b], elements x := by
    simp only [List.mem_cons, List.not_mem_nil, or_false]
    rintro x (rfl | rfl)
    · exact ha
    · exact hb
  have hsorts : SortsTo eng invoke target this args w _ :=
    sortsTo_outcome hpure hargs hlist hitems
      (fun a _ b _ => (byNarrowedSign_eq_gt_iff a b).symm) hw
  rw [outcome_mergeSortBy_pair] at hsorts
  constructor
  · intro hkeeps
    refine ⟨_, hsorts, ?_⟩
    have hstable := stablySorted_mergeSortBy (hpre.of_imp hitems)
    rw [outcome_mergeSortBy_pair] at hstable
    have hiff : byNarrowedSign num a b = .gt ↔ bySign num a b = .gt :=
      (byNarrowedSign_eq_gt_iff a b).trans hkeeps
    simpa only [hiff] using hstable
  · rintro ⟨sorted, hto, hstable⟩
    have hordered := hto.unique hsorts ▸ hstable.ordered
    cases hsign : (num a b).sign with
    | eq => exact Script.Value.keepsPositive_of_sign_eq (hpure.number a b ha hb) hsign
    | gt =>
      refine iff_of_true ?_ hsign
      by_contra hnarrow
      rw [if_neg (by rwa [byNarrowedSign_eq_gt_iff])] at hordered
      exact absurd hsign (List.rel_of_pairwise_cons hordered List.mem_cons_self)
    | lt =>
      refine iff_of_false (fun hnarrow => ?_) (by rw [hsign]; decide)
      rw [if_pos ((byNarrowedSign_eq_gt_iff a b).2 hnarrow)] at hordered
      have hswap : bySign num b a = .gt := by
        rw [hpre.swap ha hb]
        exact congrArg Ordering.swap hsign
      exact absurd hswap (List.rel_of_pairwise_cons hordered List.mem_cons_self)

/-- A pure comparator sorts a list stably in the order of the signs of its answers if narrowing
keeps what is positive among them, and a list of two elements only then. Narrowing does so for
32-bit integers, for longer integers whose low 32 bits are positive just if they are, and for all
floating-point numbers but those between zero and one. -/
theorem sortsTo_by_sign {eng : Engine} {invoke : Invoke} {c : Script.Value}
    {elements : Value → Prop} {num : Value → Value → Script.Value} {calm : World → Prop}
    (hpure : PureComparator eng invoke c elements num calm)
    (hpre : PreordersOn (bySign num) elements) :
    (∀ (items : List Value) (target : Value) (this : Script.Value) (args : List Script.Value)
      (w : World), args[0]? = some c → w.list? target = some items.toArray →
      (∀ a ∈ items, elements a) → calm w →
      (∀ a ∈ items, ∀ b ∈ items, (num a b).KeepsPositive) →
      ∃ sorted, SortsTo eng invoke target this args w sorted ∧
        StablySorted (bySign num) items sorted) ∧
    (∀ (a b target : Value) (this : Script.Value) (args : List Script.Value) (w : World),
      args[0]? = some c → w.list? target = some #[a, b] → elements a → elements b → calm w →
      ((num a b).KeepsPositive ↔ ∃ sorted, SortsTo eng invoke target this args w sorted ∧
        StablySorted (bySign num) [a, b] sorted)) ∧
    (∀ n, (Script.Value.integer n).KeepsPositive) ∧
    (∀ n, (Script.Value.long n).KeepsPositive ↔ (0 < n.toInt.bmod 4294967296 ↔ 0 < n.toInt)) ∧
    ∀ x, (Script.Value.double x).KeepsPositive ↔
      (Double.sign x = .gt → x.isInfinite = true ∨ 1 ≤ x.truncate) :=
  ⟨fun _ _ _ _ _ hargs hlist hitems hw hkeeps =>
      sortsTo_of_keepsPositive hpure hpre hargs hlist hitems hkeeps hw,
    fun _ _ _ _ _ _ hargs hlist ha hb hw =>
      keepsPositive_iff_sortsTo hpure hpre hargs ha hb hlist hw,
    Script.Value.keepsPositive_integer, Script.Value.keepsPositive_long_iff,
    Script.Value.keepsPositive_double_iff⟩

/-- One half with the sign of a comparison. -/
def signedHalf : Ordering → Double
  | .lt => .ofMagnitude .double true 0x3FE0000000000000
  | .eq => .zero .double
  | .gt => .ofMagnitude .double false 0x3FE0000000000000

/-- How two integers compare, as a signed half. -/
def halves : Value → Value → Script.Value
  | .integer a, .integer b => .double (signedHalf (compare a.toInt b.toInt))
  | _, _ => .undefined

/-- Callables that compare two integers by signed halves. -/
def comparingByHalves : Invoke
  | _, _, [.integer a, .integer b] => pure (.double (signedHalf (compare a.toInt b.toInt)))
  | _, _, _ => pure .undefined

/-- One half narrows to zero: a comparator that answers with halves leaves two elements in the wrong
order. -/
theorem sortsTo_by_sign_halves :
    ¬ ∃ sorted, SortsTo (Engine.direct Config.standard) comparingByHalves onlyList .undefined
        [.function ⟨0⟩] (World.ofItems [.integer 2, .integer 1]) sorted ∧
      StablySorted (bySign halves) [.integer 2, .integer 1] sorted := by
  have hpure : PureComparator (Engine.direct Config.standard) comparingByHalves (.function ⟨0⟩)
      (fun v => v = .integer 1 ∨ v = .integer 2) halves fun _ => True := by
    refine ⟨rfl, ?_, ?_, fun _ _ _ => trivial⟩
    · rintro a b (rfl | rfl) (rfl | rfl) <;> rfl
    · rintro a b w (rfl | rfl) (rfl | rfl) - <;> exact ⟨_, rfl, trivial, rfl⟩
  have hpre : PreordersOn (bySign halves) fun v => v = .integer 1 ∨ v = .integer 2 := by
    constructor
    · rintro a b (rfl | rfl) (rfl | rfl) <;> decide +kernel
    · rintro a b c (rfl | rfl) (rfl | rfl) (rfl | rfl) <;> decide +kernel
  rw [← (sortsTo_by_sign hpure hpre).2.1 (.integer 2) (.integer 1) onlyList .undefined
    [.function ⟨0⟩] _ rfl rfl (.inr rfl) (.inl rfl) trivial]
  unfold Script.Value.KeepsPositive
  decide +kernel

end Membrane
