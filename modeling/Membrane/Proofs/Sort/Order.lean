import Membrane.Proofs.Sort.Inquiry

/-!
# The order a sort gives

A comparison without effects that preorders the items makes the sort order them and keep items that
compare equal in the order they had. The invariant of the passes is `RunsOf`: every run is ordered,
and items that compare equal stand in their first order in the sequence of all runs.

## Main definitions

* `PreordersOn`: a comparison that is a total preorder on some items.
* `StablySorted`: the items in order, equal ones in the order they had.
* `RunsOf`: runs that a pass may find.
* `Inquiry.outcome`: the result of an inquiry answered by a function.

## Main results

* `Inquiry.conduct_eq_outcome`: comparisons with a state that agree with a function on what is
  greater.
* `RunsOf.mergePairs`, `RunsOf.stablySorted`: what one pass keeps, and what all passes reach.
* `mergeSortBy_correct`: the sort with any comparison.
-/

namespace Membrane

variable {α β γ : Type}

/-- A comparison that is a total preorder on the items with a property. -/
structure PreordersOn (cmp : α → α → Ordering) (p : α → Prop) : Prop where
  /-- Compared the other way round, two items give the opposite answer. -/
  swap : ∀ {a b}, p a → p b → cmp b a = (cmp a b).swap
  /-- Not to be greater is transitive. -/
  trans : ∀ {a b c}, p a → p b → p c → cmp a b ≠ .gt → cmp b c ≠ .gt → cmp a c ≠ .gt

theorem preordersOn_of_transCmp (cmp : α → α → Ordering) [Std.TransCmp cmp] (p : α → Prop) :
    PreordersOn cmp p where
  swap _ _ := Std.OrientedCmp.eq_swap
  trans _ _ _ hab hbc := by
    rw [ne_eq, ← Ordering.isLE_iff_ne_gt] at *
    exact Std.TransCmp.isLE_trans hab hbc

theorem PreordersOn.of_imp {cmp : α → α → Ordering} {p r : α → Prop} (h : PreordersOn cmp p)
    (hr : ∀ a, r a → p a) : PreordersOn cmp r where
  swap ha hb := h.swap (hr _ ha) (hr _ hb)
  trans ha hb hc := h.trans (hr _ ha) (hr _ hb) (hr _ hc)

/-- A list of the items in order, in which equal ones stand as they stood before. -/
structure StablySorted (cmp : α → α → Ordering) (items sorted : List α) : Prop where
  /-- No item is lost or added. -/
  perm : sorted.Perm items
  /-- No item is greater than a later one. -/
  ordered : sorted.Pairwise fun a b => cmp a b ≠ .gt
  /-- The items equal to any one of them keep their order. -/
  stable : ∀ a ∈ items, sorted.filter (fun b => cmp a b = .eq) = items.filter fun b => cmp a b = .eq

/-! ### Inquiries answered by a function -/

namespace Inquiry

variable (cmp : α → α → Ordering)

/-- The result of an inquiry answered by a function. -/
def outcome : Inquiry α β → β
  | done b => b
  | ask x y next => outcome (next (cmp x y))

@[simp] theorem outcome_bind (q : Inquiry α β) (f : β → Inquiry α γ) :
    (q >>= f).outcome cmp = (f (q.outcome cmp)).outcome cmp := by
  induction q with
  | done b => rfl
  | ask x y next ih => exact ih (cmp x y)

/-- Comparisons without effects give the result in any monad. -/
theorem conduct_pure_eq_outcome {m : Type → Type} [Monad m] [LawfulMonad m] (q : Inquiry α β) :
    q.conduct (fun x y => (pure (cmp x y) : m Ordering)) = pure (q.outcome cmp) := by
  induction q with
  | done b => rfl
  | ask x y next ih =>
    rw [conduct_ask, pure_bind]
    exact ih (cmp x y)

theorem Ends.outcome {p : β → Prop} {q : Inquiry α β} (hq : q.Ends p) : p (q.outcome cmp) := by
  induction q with
  | done b => exact hq
  | ask x y next ih => exact ih _ (hq _)

/-- Comparisons that keep a property of the state, do not fail and tell what is greater as a
function does lead to the result the function gives. -/
theorem conduct_eq_outcome {ε σ : Type} {compare : α → α → EStateM ε σ Ordering} {p : α → Prop}
    {calm : σ → Prop} {q : Inquiry α β} (hq : q.Asks p)
    (hcompare : ∀ x y s, p x → p y → calm s →
      ∃ o s', compare x y s = .ok o s' ∧ (o = .gt ↔ cmp x y = .gt) ∧ calm s')
    {s : σ} (hs : calm s) : ∃ s', q.conduct compare s = .ok (q.outcome cmp) s' ∧ calm s' := by
  induction q generalizing s with
  | done b => exact ⟨s, rfl, hs⟩
  | ask x y next ih =>
    obtain ⟨hx, hy, hgt, hnext⟩ := hq
    obtain ⟨o, s₁, hxy, ho, hs₁⟩ := hcompare x y s hx hy hs
    obtain ⟨s', h, hs'⟩ := ih o (hnext o) hs₁
    refine ⟨s', ?_, hs'⟩
    rw [conduct_ask_ok hxy, h]
    exact congrArg (fun q => EStateM.Result.ok (q.outcome cmp) s') (hgt o (cmp x y) ho)

/-- Two runs are merged as the library merges lists. -/
theorem outcome_mergeRuns (xs ys : List α) :
    (mergeRuns Inquiry.compare xs ys).outcome cmp = xs.merge ys fun x y => cmp x y ≠ .gt := by
  induction xs generalizing ys with
  | nil => exact (List.nil_merge ys).symm
  | cons x xs ihx =>
    induction ys with
    | nil => exact (List.merge_right (x :: xs)).symm
    | cons y ys ihy =>
      change Inquiry.outcome cmp (if cmp x y = .gt then _ else _) = _
      rw [List.cons_merge_cons]
      by_cases h : cmp x y = .gt
      · simp only [h, ↓reduceIte, outcome_bind, ne_eq, not_true_eq_false, decide_false,
          Bool.false_eq_true]
        exact congrArg (y :: ·) ihy
      · simp only [h, ↓reduceIte, outcome_bind, ne_eq, not_false_eq_true, decide_true]
        exact congrArg (x :: ·) (ihx (y :: ys))

theorem outcome_mergePairs_cons_cons (r s : List α) (rest : List (List α)) :
    (mergePairs Inquiry.compare (r :: s :: rest)).outcome cmp =
      (r.merge s fun x y => cmp x y ≠ .gt) :: (mergePairs Inquiry.compare rest).outcome cmp := by
  simp only [mergePairs, outcome_bind, outcome_mergeRuns]
  rfl

end Inquiry

/-! ### One merge -/

section Merge

variable {cmp : α → α → Ordering} {p : α → Prop}

/-- Items that are ordered, up to an item that is greater than the head of another run: none of them
equals anything that the head equals. -/
private theorem filter_eq_nil_of_gt (h : PreordersOn cmp p) {a x y : α} {xs : List α} (ha : p a)
    (hy : p y) (hx : ∀ z ∈ x :: xs, p z) (hxs : (x :: xs).Pairwise fun a b => cmp a b ≠ .gt)
    (hgt : cmp x y = .gt) (hay : cmp a y = .eq) :
    (x :: xs).filter (fun b => cmp a b = .eq) = [] := by
  rw [List.filter_eq_nil_iff]
  intro z hz
  simp only [decide_eq_true_eq]
  intro haz
  have hxz : cmp x z ≠ .gt := by
    rcases List.mem_cons.mp hz with rfl | hz'
    · have hself := h.swap (hx z hz) (hx z hz)
      intro hgt'
      rw [hgt'] at hself
      cases hself
    · exact (List.pairwise_cons.mp hxs).1 z hz'
  have hza : cmp z a ≠ .gt := by
    rw [h.swap ha (hx z hz), haz]
    decide
  have hxx := hx x List.mem_cons_self
  have hxa : cmp x a ≠ .gt := h.trans hxx (hx z hz) ha hxz hza
  exact h.trans hxx ha hy hxa (by rw [hay]; decide) hgt

theorem pairwise_merge_of_preordersOn (h : PreordersOn cmp p) (xs ys : List α)
    (hx : ∀ z ∈ xs, p z) (hy : ∀ z ∈ ys, p z) (hxs : xs.Pairwise fun a b => cmp a b ≠ .gt)
    (hys : ys.Pairwise fun a b => cmp a b ≠ .gt) :
    (xs.merge ys fun x y => cmp x y ≠ .gt).Pairwise fun a b => cmp a b ≠ .gt := by
  induction xs generalizing ys with
  | nil => simpa using hys
  | cons x xs ihx =>
    induction ys with
    | nil => simpa using hxs
    | cons y ys ihy =>
      obtain ⟨hxhead, hxtail⟩ := List.pairwise_cons.mp hxs
      obtain ⟨hyhead, hytail⟩ := List.pairwise_cons.mp hys
      have hpx := hx x List.mem_cons_self
      have hpy := hy y List.mem_cons_self
      rw [List.cons_merge_cons]
      by_cases hgt : cmp x y = .gt
      · have hyx : cmp y x ≠ .gt := by
          rw [h.swap hpx hpy, hgt]
          decide
        simp only [hgt, ne_eq, not_true_eq_false, decide_false, Bool.false_eq_true, ↓reduceIte]
        refine List.pairwise_cons.mpr
          ⟨fun z hz => ?_, ihy (fun z hz => hy z (List.mem_cons_of_mem _ hz)) hytail⟩
        rcases List.mem_merge.mp hz with hz | hz
        · rcases List.mem_cons.mp hz with rfl | hz'
          · exact hyx
          · exact h.trans hpy hpx (hx z hz) hyx (hxhead z hz')
        · exact hyhead z hz
      · simp only [hgt, ne_eq, not_false_eq_true, decide_true, ↓reduceIte]
        refine List.pairwise_cons.mpr
          ⟨fun z hz => ?_,
            ihx (y :: ys) (fun z hz => hx z (List.mem_cons_of_mem _ hz)) hy hxtail hys⟩
        rcases List.mem_merge.mp hz with hz | hz
        · exact hxhead z hz
        · rcases List.mem_cons.mp hz with rfl | hz'
          · exact hgt
          · exact h.trans hpx hpy (hy z hz) hgt (hyhead z hz')

/-- A merge puts the items of the first run that equal some item before those of the second. -/
theorem filter_merge_of_preordersOn (h : PreordersOn cmp p) {a : α} (ha : p a) (xs ys : List α)
    (hx : ∀ z ∈ xs, p z) (hy : ∀ z ∈ ys, p z) (hxs : xs.Pairwise fun a b => cmp a b ≠ .gt) :
    (xs.merge ys fun x y => cmp x y ≠ .gt).filter (fun b => cmp a b = .eq) =
      xs.filter (fun b => cmp a b = .eq) ++ ys.filter fun b => cmp a b = .eq := by
  induction xs generalizing ys with
  | nil => simp
  | cons x xs ihx =>
    induction ys with
    | nil => simp
    | cons y ys ihy =>
      rw [List.cons_merge_cons]
      by_cases hgt : cmp x y = .gt
      · have hrest := ihy fun z hz => hy z (List.mem_cons_of_mem _ hz)
        simp only [hgt, ne_eq, not_true_eq_false, decide_false, Bool.false_eq_true, ↓reduceIte]
        by_cases hay : cmp a y = .eq
        · have hnil := filter_eq_nil_of_gt h ha (hy y List.mem_cons_self) hx hxs hgt hay
          rw [List.filter_cons_of_pos (by simpa using hay), hrest, hnil,
            List.filter_cons_of_pos (by simpa using hay)]
          rfl
        · rw [List.filter_cons_of_neg (by simpa using hay), hrest,
            List.filter_cons_of_neg (l := ys) (by simpa using hay)]
      · have hrest := ihx (y :: ys) (fun z hz => hx z (List.mem_cons_of_mem _ hz)) hy
          (List.pairwise_cons.mp hxs).2
        simp only [hgt, ne_eq, not_false_eq_true, decide_true, ↓reduceIte]
        by_cases hax : cmp a x = .eq
        · rw [List.filter_cons_of_pos (by simpa using hax), hrest,
            List.filter_cons_of_pos (l := xs) (by simpa using hax)]
          rfl
        · rw [List.filter_cons_of_neg (by simpa using hax), hrest,
            List.filter_cons_of_neg (l := xs) (by simpa using hax)]

end Merge

/-! ### Passes -/

/-- The runs that a pass of a sort of some items may find: each is ordered, and in the sequence of
all runs the items equal to any one of them stand as at first. -/
structure RunsOf (cmp : α → α → Ordering) (items : List α) (runs : List (List α)) : Prop where
  /-- No item is lost or added. -/
  perm : runs.flatten.Perm items
  /-- Each run is ordered. -/
  ordered : ∀ r ∈ runs, r.Pairwise fun a b => cmp a b ≠ .gt
  /-- The items equal to any one of them keep their order. -/
  stable : ∀ a ∈ items,
    runs.flatten.filter (fun b => cmp a b = .eq) = items.filter fun b => cmp a b = .eq

/-- The runs a sort starts from. -/
theorem runsOf_singletons (cmp : α → α → Ordering) (items : List α) :
    RunsOf cmp items (items.map fun x => [x]) where
  perm := by rw [← List.flatMap_def, List.flatMap_singleton']
  ordered r hr := by
    obtain ⟨x, -, rfl⟩ := List.mem_map.mp hr
    exact List.pairwise_singleton _ x
  stable a _ := by rw [← List.flatMap_def, List.flatMap_singleton']

section Passes

variable {cmp : α → α → Ordering} {items : List α}

theorem ordered_outcome_mergePairs {p : α → Prop} (h : PreordersOn cmp p) :
    (runs : List (List α)) → (∀ r ∈ runs, ∀ x ∈ r, p x) →
      (∀ r ∈ runs, r.Pairwise fun a b => cmp a b ≠ .gt) →
      ∀ r ∈ (mergePairs Inquiry.compare runs).outcome cmp, r.Pairwise fun a b => cmp a b ≠ .gt
  | [], _, ho => ho
  | [_], _, ho => ho
  | r :: s :: rest, hp, ho => by
    simp only [List.forall_mem_cons] at hp ho
    obtain ⟨hpr, hps, hprest⟩ := hp
    obtain ⟨hor, hos, horest⟩ := ho
    rw [Inquiry.outcome_mergePairs_cons_cons, List.forall_mem_cons]
    exact ⟨pairwise_merge_of_preordersOn h r s hpr hps hor hos,
      ordered_outcome_mergePairs h rest hprest horest⟩

theorem filter_outcome_mergePairs {p : α → Prop} (h : PreordersOn cmp p) {a : α} (ha : p a) :
    (runs : List (List α)) → (∀ r ∈ runs, ∀ x ∈ r, p x) →
      (∀ r ∈ runs, r.Pairwise fun a b => cmp a b ≠ .gt) →
      ((mergePairs Inquiry.compare runs).outcome cmp).flatten.filter (fun b => cmp a b = .eq) =
        runs.flatten.filter fun b => cmp a b = .eq
  | [], _, _ => rfl
  | [_], _, _ => rfl
  | r :: s :: rest, hp, ho => by
    simp only [List.forall_mem_cons] at hp ho
    obtain ⟨hpr, hps, hprest⟩ := hp
    obtain ⟨hor, -, horest⟩ := ho
    have hrest := filter_outcome_mergePairs h ha rest hprest horest
    have hmerge := filter_merge_of_preordersOn h ha r s hpr hps hor
    simp only [Inquiry.outcome_mergePairs_cons_cons, List.flatten_cons, List.filter_append, hrest,
      hmerge, List.append_assoc]

/-- One pass leaves runs that the next pass may find. -/
theorem RunsOf.mergePairs (h : PreordersOn cmp (· ∈ items)) {runs : List (List α)}
    (hr : RunsOf cmp items runs) :
    RunsOf cmp items ((Membrane.mergePairs Inquiry.compare runs).outcome cmp) := by
  have hp : ∀ r ∈ runs, ∀ x ∈ r, x ∈ items := fun r hrun x hx =>
    hr.perm.mem_iff.mp (List.mem_flatten_of_mem hrun hx)
  constructor
  · exact ((ends_mergePairs runs).outcome cmp).1.trans hr.perm
  · exact ordered_outcome_mergePairs h runs hp hr.ordered
  · exact fun a ha => (filter_outcome_mergePairs h ha runs hp hr.ordered).trans (hr.stable a ha)

/-- A single run that is left is the items in order. -/
theorem RunsOf.stablySorted_of_single {r : List α} (hr : RunsOf cmp items [r]) :
    StablySorted cmp items r where
  perm := by simpa using hr.perm
  ordered := hr.ordered r List.mem_cons_self
  stable a ha := by simpa using hr.stable a ha

/-- Enough passes leave the items in order. -/
theorem RunsOf.stablySorted (h : PreordersOn cmp (· ∈ items)) {passes : ℕ} {runs : List (List α)}
    (hr : RunsOf cmp items runs) (hn : Nat.clog 2 runs.length ≤ passes) :
    StablySorted cmp items ((mergePasses Inquiry.compare passes runs).outcome cmp) := by
  have hnil (hr : RunsOf cmp items []) : StablySorted cmp items [] :=
    ⟨hr.perm, List.Pairwise.nil, hr.stable⟩
  induction passes generalizing runs with
  | zero =>
    rcases runs with - | ⟨r, - | ⟨s, rest⟩⟩
    · exact hnil hr
    · exact hr.stablySorted_of_single
    · have hpos : 0 < Nat.clog 2 (r :: s :: rest).length := Nat.clog_pos Nat.one_lt_two (by simp)
      omega
  | succ passes ih =>
    rcases runs with - | ⟨r, - | ⟨s, rest⟩⟩
    · exact hnil hr
    · exact hr.stablySorted_of_single
    · have hhalf := ((ends_mergePairs (r :: s :: rest)).outcome cmp).2
      simp only [mergePasses, Inquiry.outcome_bind]
      exact ih (hr.mergePairs h) (hhalf ▸ clog_half_le (by simp) hn)

/-- The inquiry of a sort, answered by a preorder of the items. -/
theorem stablySorted_mergeSortBy (h : PreordersOn cmp (· ∈ items)) :
    StablySorted cmp items ((mergeSortBy Inquiry.compare items).outcome cmp) :=
  (runsOf_singletons cmp items).stablySorted h
    (Nat.clog_le_of_le_pow (by simpa using Nat.lt_two_pow_self.le))

end Passes

/-! ### The sort -/

/-- **The merge sort with any comparison.** Whatever is answered, the sort keeps the items, and as
many passes as the binary logarithm of their number are all it makes. A comparison that preorders
the items sorts them stably and without fail. The first comparison that fails is the last one made,
and its error is the result; if none fails the sort succeeds. Fewer than two items are not
compared. -/
theorem mergeSortBy_correct {α ε σ : Type} (items : List α) :
    (∀ (compare : α → α → EStateM ε σ Ordering) (s s' : σ) (sorted : List α),
        mergeSortBy compare items s = .ok sorted s' → sorted.Perm items) ∧
      (∀ (compare : α → α → EStateM ε σ Ordering) (passes : ℕ),
        Nat.clog 2 items.length ≤ passes →
          mergePasses compare passes (items.map fun x => [x]) = mergeSortBy compare items) ∧
      (∀ cmp : α → α → Ordering, PreordersOn cmp (· ∈ items) →
        ∃ sorted, mergeSortBy (fun x y => (pure (cmp x y) : EStateM ε σ Ordering)) items =
          pure sorted ∧ StablySorted cmp items sorted) ∧
      (∀ (compare : α → α → EStateM ε σ Ordering) (s s' : σ) (answers : List (Except ε Ordering)),
        (∀ sorted, mergeSortBy (Inquiry.recording compare) items (s, []) =
            .ok sorted (s', answers) →
          mergeSortBy compare items s = .ok sorted s' ∧
            ∃ os : List Ordering, answers = os.map .ok) ∧
        ∀ e, mergeSortBy (Inquiry.recording compare) items (s, []) = .error e (s', answers) →
          mergeSortBy compare items s = .error e s' ∧
            ∃ os : List Ordering, answers = os.map .ok ++ [.error e]) ∧
      (items.length < 2 → ∀ compare : α → α → EStateM ε σ Ordering,
        mergeSortBy compare items = pure items) := by
  refine ⟨fun compare s s' sorted h => ?_, fun compare passes hn => ?_, fun cmp h => ?_,
    fun compare s s' answers => ⟨fun sorted h => ?_, fun e h => ?_⟩, fun hlt compare => ?_⟩
  · rw [mergeSortBy_eq_conduct] at h
    have hperm := (ends_mergePasses items.length (items.map fun x => [x])).conduct compare h
    exact hperm.trans (runsOf_singletons (fun _ _ => .eq) items).perm
  · refine mergePasses_eq_of_clog_le compare _ (by simpa using hn) ?_
    exact Nat.clog_le_of_le_pow (by simpa using Nat.lt_two_pow_self.le)
  · rw [mergeSortBy_eq_conduct, Inquiry.conduct_pure_eq_outcome]
    exact ⟨_, rfl, stablySorted_mergeSortBy h⟩
  · rw [mergeSortBy_eq_conduct] at h ⊢
    exact Inquiry.conduct_recording_ok h
  · rw [mergeSortBy_eq_conduct] at h ⊢
    exact Inquiry.conduct_recording_error h
  · rcases items with - | ⟨x, - | ⟨y, rest⟩⟩
    · rfl
    · rfl
    · simp only [List.length_cons] at hlt
      omega

/-- Pairs compared by their first component, some of which compare equal. -/
theorem mergeSortBy_correct_pairs :
    PreordersOn (compareOn Prod.fst)
        (· ∈ [(2, 'a'), (1, 'b'), (2, 'c'), (1, 'd'), ((0 : ℕ), 'e')]) ∧
      StablySorted (compareOn Prod.fst)
        [(2, 'a'), (1, 'b'), (2, 'c'), (1, 'd'), ((0 : ℕ), 'e')]
        [(0, 'e'), (1, 'b'), (1, 'd'), (2, 'a'), (2, 'c')] := by
  have hpre := preordersOn_of_transCmp (compareOn (Prod.fst : ℕ × Char → ℕ))
    (· ∈ [(2, 'a'), (1, 'b'), (2, 'c'), (1, 'd'), ((0 : ℕ), 'e')])
  obtain ⟨sorted, hrun, hsorted⟩ := (@mergeSortBy_correct (ℕ × Char) Unit Unit _).2.2.1 _ hpre
  have hvalue : sorted = [(0, 'e'), (1, 'b'), (1, 'd'), (2, 'a'), (2, 'c')] := by
    have hok := congrFun hrun ()
    change EStateM.Result.ok [(0, 'e'), (1, 'b'), (1, 'd'), (2, 'a'), (2, 'c')] () =
      EStateM.Result.ok sorted () at hok
    injection hok with hlist
    exact hlist.symm
  exact ⟨hpre, hvalue ▸ hsorted⟩

end Membrane
