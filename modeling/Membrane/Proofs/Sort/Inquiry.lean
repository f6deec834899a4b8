import Membrane.Prototype.Sort
import Mathlib.Data.Nat.Log

/-!
# The comparisons a sort makes

Which items a merge sort compares depends on the answers it was given before and on nothing else. An
`Inquiry` is such a course of comparisons: a finite tree that asks for a comparison at every inner
node and has a result at every leaf. Inquiries form a monad, so the sort can be run in them
(`Inquiry.compare`), and a run with a comparison in any lawful monad is the conduct of that one
inquiry (`mergeSortBy_eq_conduct`). What holds at all leaves therefore holds whatever is answered.

## Main definitions

* `Inquiry`, `Inquiry.compare`, `Inquiry.conduct`.
* `Inquiry.Ends`: what holds of the result at every leaf.
* `Inquiry.Asks`: which items are compared, and that an answer only matters for what is greater.

## Main results

* `mergePasses_eq_conduct`, `mergeSortBy_eq_conduct`: the sort as the conduct of an inquiry.
* `ends_mergePasses`, `ends_mergeSortBy`: every leaf of the sort holds the items in some order.
* `asks_mergeSortBy`: a sort compares its items and looks for the greater of two only.
* `mergePasses_eq_of_clog_le`: passes beyond the binary logarithm of the number of runs do nothing.
-/

namespace Membrane

/-- A course of comparisons, each of which may depend on the answers before it. -/
inductive Inquiry (α β : Type) where
  | done (b : β)
  | ask (x y : α) (next : Ordering → Inquiry α β)

namespace Inquiry

variable {α β γ : Type} {m : Type → Type} [Monad m]

/-- The inquiry that goes on where another one has its result. -/
def bind : Inquiry α β → (β → Inquiry α γ) → Inquiry α γ
  | done b, f => f b
  | ask x y next, f => ask x y fun o => bind (next o) f

instance : Monad (Inquiry α) where
  pure := done
  bind := bind

/-- The comparison that is asked for and not yet answered. -/
def compare (x y : α) : Inquiry α Ordering := ask x y done

/-- The inquiry with its comparisons made in a monad. -/
def conduct (compare : α → α → m Ordering) : Inquiry α β → m β
  | done b => pure b
  | ask x y next => do conduct compare (next (← compare x y))

@[simp] theorem done_bind (b : β) (f : β → Inquiry α γ) : (done b >>= f) = f b := rfl

@[simp] theorem ask_bind (x y : α) (next : Ordering → Inquiry α β) (f : β → Inquiry α γ) :
    (ask x y next >>= f) = ask x y fun o => next o >>= f :=
  rfl

theorem compare_bind (x y : α) (f : Ordering → Inquiry α β) : (compare x y >>= f) = ask x y f := rfl

section Conduct

variable (compare : α → α → m Ordering)

@[simp] theorem conduct_pure (b : β) : (pure b : Inquiry α β).conduct compare = pure b := rfl

theorem conduct_ask (x y : α) (next : Ordering → Inquiry α β) :
    (ask x y next).conduct compare = compare x y >>= fun o => (next o).conduct compare :=
  rfl

theorem conduct_bind [LawfulMonad m] (q : Inquiry α β) (f : β → Inquiry α γ) :
    (q >>= f).conduct compare = q.conduct compare >>= fun b => (f b).conduct compare := by
  induction q with
  | done b => exact (LawfulMonad.pure_bind b fun b => (f b).conduct compare).symm
  | ask x y next ih =>
    rw [ask_bind, conduct_ask, conduct_ask, bind_assoc]
    exact bind_congr ih

end Conduct

/-! ### Properties of all results -/

/-- A property holds of the result, whatever is answered. -/
def Ends (p : β → Prop) : Inquiry α β → Prop
  | done b => p b
  | ask _ _ next => ∀ o, Ends p (next o)

theorem Ends.bind {p : β → Prop} {r : γ → Prop} {q : Inquiry α β} {f : β → Inquiry α γ}
    (hq : q.Ends p) (hf : ∀ b, p b → (f b).Ends r) : (q >>= f).Ends r := by
  induction q with
  | done b => exact hf b hq
  | ask x y next ih => exact fun o => ih o (hq o)

theorem Ends.mono {p r : β → Prop} {q : Inquiry α β} (hq : q.Ends p) (h : ∀ b, p b → r b) :
    q.Ends r := by
  induction q with
  | done b => exact h b hq
  | ask x y next ih => exact fun o => ih o (hq o)

theorem ends_true : (q : Inquiry α β) → q.Ends fun _ => True
  | done _ => trivial
  | ask _ _ next => fun o => ends_true (next o)

/-- Inquiries that go on alike from all results of another one are the same. -/
theorem Ends.bind_congr {p : β → Prop} {q : Inquiry α β} {f g : β → Inquiry α γ} (hq : q.Ends p)
    (h : ∀ b, p b → f b = g b) : q >>= f = q >>= g := by
  induction q with
  | done b => exact h b hq
  | ask x y next ih =>
    rw [ask_bind, ask_bind]
    exact congrArg _ (funext fun o => ih o (hq o))

/-- Only items with a property are compared, and of each answer nothing is used but whether it says
that the first is greater. -/
def Asks (p : α → Prop) : Inquiry α β → Prop
  | done _ => True
  | ask x y next => p x ∧ p y ∧ (∀ o o', (o = .gt ↔ o' = .gt) → next o = next o') ∧
      ∀ o, Asks p (next o)

theorem Asks.bind {p : α → Prop} {r : β → Prop} {q : Inquiry α β} {f : β → Inquiry α γ}
    (hq : q.Asks p) (hends : q.Ends r) (hf : ∀ b, r b → (f b).Asks p) : (q >>= f).Asks p := by
  induction q with
  | done b => exact hf b hends
  | ask x y next ih =>
    obtain ⟨hx, hy, hgt, hnext⟩ := hq
    refine ⟨hx, hy, fun o o' ho => ?_, fun o => ih o (hnext o) (hends o)⟩
    exact congrArg (· >>= f) (hgt o o' ho)

end Inquiry

/-! ### The sort as an inquiry -/

section Conduct

variable {α : Type} {m : Type → Type} [Monad m] [LawfulMonad m] (compare : α → α → m Ordering)

theorem mergeHead_eq_conduct (x : α) (xs : List α) {rest : List α → Inquiry α (List α)}
    {rest' : List α → m (List α)} (h : ∀ ys, rest' ys = (rest ys).conduct compare) (ys : List α) :
    mergeHead compare x xs rest' ys =
      (mergeHead Inquiry.compare x xs rest ys).conduct compare := by
  induction ys with
  | nil => rfl
  | cons y ys ih =>
    simp only [mergeHead, Inquiry.compare_bind, Inquiry.conduct_ask, ih, h]
    refine bind_congr fun o => ?_
    split_ifs <;> rw [Inquiry.conduct_bind] <;> rfl

theorem mergeRuns_eq_conduct (xs ys : List α) :
    mergeRuns compare xs ys = (mergeRuns Inquiry.compare xs ys).conduct compare := by
  induction xs generalizing ys with
  | nil => rfl
  | cons x xs ih => exact mergeHead_eq_conduct compare x xs ih ys

theorem mergePairs_eq_conduct : (runs : List (List α)) →
    mergePairs compare runs = (mergePairs Inquiry.compare runs).conduct compare
  | [] => rfl
  | [_] => rfl
  | r :: s :: rest => by
    simp only [mergePairs, Inquiry.conduct_bind, mergeRuns_eq_conduct compare r s,
      mergePairs_eq_conduct rest]
    rfl

theorem mergePasses_eq_conduct (passes : ℕ) (runs : List (List α)) :
    mergePasses compare passes runs =
      (mergePasses Inquiry.compare passes runs).conduct compare := by
  induction passes generalizing runs with
  | zero => rcases runs with - | ⟨r, - | ⟨s, rest⟩⟩ <;> rfl
  | succ passes ih =>
    rcases runs with - | ⟨r, - | ⟨s, rest⟩⟩
    · rfl
    · rfl
    · simp only [mergePasses, Inquiry.conduct_bind, mergePairs_eq_conduct compare, ih]

/-- A sort in a monad is the conduct of the one inquiry that sorting the items is. -/
theorem mergeSortBy_eq_conduct (items : List α) :
    mergeSortBy compare items = (mergeSortBy Inquiry.compare items).conduct compare :=
  mergePasses_eq_conduct compare items.length _

end Conduct

/-! ### The results of a sort -/

section Results

variable {α : Type}

theorem ends_mergeHead (x : α) (xs : List α) {rest : List α → Inquiry α (List α)}
    (h : ∀ ys, (rest ys).Ends fun zs => zs.Perm (xs ++ ys)) (ys : List α) :
    (mergeHead Inquiry.compare x xs rest ys).Ends fun zs => zs.Perm (x :: xs ++ ys) := by
  induction ys with
  | nil => exact .of_eq (List.append_nil _).symm
  | cons y ys ih =>
    intro o
    change Inquiry.Ends _ (if o = .gt then _ else _)
    split_ifs
    · exact ih.bind fun zs hzs => (hzs.cons y).trans List.perm_middle.symm
    · exact (h (y :: ys)).bind fun zs hzs => hzs.cons x

theorem ends_mergeRuns (xs ys : List α) :
    (mergeRuns Inquiry.compare xs ys).Ends fun zs => zs.Perm (xs ++ ys) := by
  induction xs generalizing ys with
  | nil => exact .refl ys
  | cons x xs ih => exact ends_mergeHead x xs ih ys

/-- A pass keeps the items and halves the number of runs. -/
theorem ends_mergePairs : (runs : List (List α)) → (mergePairs Inquiry.compare runs).Ends
    fun merged => merged.flatten.Perm runs.flatten ∧ merged.length = (runs.length + 1) / 2
  | [] => ⟨.refl _, by simp⟩
  | [_] => ⟨.refl _, by simp⟩
  | r :: s :: rest => by
    refine (ends_mergeRuns r s).bind fun zs hzs => ?_
    refine (ends_mergePairs rest).bind fun merged hm => ⟨?_, ?_⟩
    · simpa only [List.flatten_cons, List.append_assoc] using hzs.append hm.1
    · simp only [List.length_cons, hm.2]
      omega

theorem ends_mergePasses (passes : ℕ) (runs : List (List α)) :
    (mergePasses Inquiry.compare passes runs).Ends fun zs => zs.Perm runs.flatten := by
  induction passes generalizing runs with
  | zero =>
    rcases runs with - | ⟨r, - | ⟨s, rest⟩⟩
    · exact .refl _
    · exact .of_eq (List.append_nil r).symm
    · exact .refl _
  | succ passes ih =>
    rcases runs with - | ⟨r, - | ⟨s, rest⟩⟩
    · exact .refl _
    · exact .of_eq (List.append_nil r).symm
    · exact (ends_mergePairs (r :: s :: rest)).bind fun merged hm =>
        (ih merged).mono fun zs hzs => hzs.trans hm.1

/-- A sort keeps the items. -/
theorem ends_mergeSortBy (items : List α) :
    (mergeSortBy Inquiry.compare items).Ends (·.Perm items) :=
  (ends_mergePasses _ _).mono fun zs hzs => by simpa [← List.flatMap_def] using hzs

theorem asks_mergeHead {p : α → Prop} {x : α} {xs : List α}
    {rest : List α → Inquiry α (List α)} (hx : p x)
    (hrest : ∀ ys, (∀ y ∈ ys, p y) → (rest ys).Asks p) (ys : List α) (hys : ∀ y ∈ ys, p y) :
    (mergeHead Inquiry.compare x xs rest ys).Asks p := by
  induction ys with
  | nil => trivial
  | cons y ys ih =>
    rw [List.forall_mem_cons] at hys
    refine ⟨hx, hys.1, fun o o' ho => ?_, fun o => ?_⟩
    · change (if o = .gt then _ else _) = if o' = .gt then _ else _
      simp only [ho]
    · change Inquiry.Asks _ (if o = .gt then _ else _)
      split_ifs
      · exact (ih hys.2).bind (Inquiry.ends_true _) fun _ _ => trivial
      · exact (hrest _ (List.forall_mem_cons.2 hys)).bind (Inquiry.ends_true _) fun _ _ => trivial

theorem asks_mergeRuns {p : α → Prop} {xs : List α} (hxs : ∀ x ∈ xs, p x) {ys : List α}
    (hys : ∀ y ∈ ys, p y) : (mergeRuns Inquiry.compare xs ys).Asks p := by
  induction xs generalizing ys with
  | nil => trivial
  | cons x xs ih =>
    rw [List.forall_mem_cons] at hxs
    exact asks_mergeHead hxs.1 (fun ys hys => ih hxs.2 hys) ys hys

theorem asks_mergePairs {p : α → Prop} : (runs : List (List α)) →
    (∀ x ∈ runs.flatten, p x) → (mergePairs Inquiry.compare runs).Asks p
  | [], _ => trivial
  | [_], _ => trivial
  | r :: s :: rest, h => by
    simp only [List.flatten_cons, List.forall_mem_append] at h
    refine (asks_mergeRuns h.1 h.2.1).bind (Inquiry.ends_true _) fun _ _ => ?_
    exact (asks_mergePairs rest h.2.2).bind (Inquiry.ends_true _) fun _ _ => trivial

theorem asks_mergePasses {p : α → Prop} (passes : ℕ) (runs : List (List α))
    (h : ∀ x ∈ runs.flatten, p x) : (mergePasses Inquiry.compare passes runs).Asks p := by
  induction passes generalizing runs with
  | zero => rcases runs with - | ⟨r, - | ⟨s, rest⟩⟩ <;> trivial
  | succ passes ih =>
    rcases runs with - | ⟨r, - | ⟨s, rest⟩⟩
    · trivial
    · trivial
    · refine (asks_mergePairs _ h).bind (ends_mergePairs _) fun merged hm => ih merged ?_
      exact fun x hx => h x (hm.1.mem_iff.1 hx)

/-- A sort compares its items with each other and uses nothing of the answers but which of two items
is greater than the other. -/
theorem asks_mergeSortBy (items : List α) :
    (mergeSortBy Inquiry.compare items).Asks (· ∈ items) :=
  asks_mergePasses _ _ fun x hx => by simpa using hx

/-- A pass that makes one run of two leaves one pass less to make. -/
theorem clog_half_le {k passes : ℕ} (hk : 2 ≤ k) (h : Nat.clog 2 k ≤ passes + 1) :
    Nat.clog 2 ((k + 1) / 2) ≤ passes := by
  rw [Nat.clog_of_two_le Nat.one_lt_two hk] at h
  exact Nat.le_of_succ_le_succ h

/-- The number of passes does not matter once it is enough to double single items up to one run:
no run is left over, and no pass beyond is made. -/
theorem mergePasses_inquiry_eq {n n' : ℕ} (runs : List (List α))
    (hn : Nat.clog 2 runs.length ≤ n) (hn' : Nat.clog 2 runs.length ≤ n') :
    mergePasses Inquiry.compare n runs = mergePasses Inquiry.compare n' runs := by
  induction n generalizing n' runs with
  | zero =>
    rcases runs with - | ⟨r, - | ⟨s, rest⟩⟩
    · cases n' <;> rfl
    · cases n' <;> rfl
    · have hpos : 0 < Nat.clog 2 (r :: s :: rest).length := Nat.clog_pos Nat.one_lt_two (by simp)
      omega
  | succ n ih =>
    rcases runs with - | ⟨r, - | ⟨s, rest⟩⟩
    · cases n' <;> rfl
    · cases n' <;> rfl
    · have htwo : 2 ≤ (r :: s :: rest).length := by simp
      cases n' with
      | zero =>
        have hpos := Nat.clog_pos Nat.one_lt_two htwo
        omega
      | succ n' =>
        refine (ends_mergePairs (r :: s :: rest)).bind_congr fun merged hm => ih merged ?_ ?_
        · exact hm.2 ▸ clog_half_le htwo hn
        · exact hm.2 ▸ clog_half_le htwo hn'

/-- Passes beyond the binary logarithm of the number of runs do nothing. -/
theorem mergePasses_eq_of_clog_le {m : Type → Type} [Monad m] [LawfulMonad m]
    (compare : α → α → m Ordering) {n n' : ℕ} (runs : List (List α))
    (hn : Nat.clog 2 runs.length ≤ n) (hn' : Nat.clog 2 runs.length ≤ n') :
    mergePasses compare n runs = mergePasses compare n' runs := by
  rw [mergePasses_eq_conduct compare n, mergePasses_eq_conduct compare n',
    mergePasses_inquiry_eq runs hn hn']

end Results

/-! ### Comparisons with a state that may fail -/

namespace Inquiry

variable {α β ε σ : Type}

theorem conduct_ask_ok {compare : α → α → EStateM ε σ Ordering} {x y : α} {s s' : σ} {o : Ordering}
    (h : compare x y s = .ok o s') (next : Ordering → Inquiry α β) :
    (ask x y next).conduct compare s = (next o).conduct compare s' := by
  change EStateM.bind _ _ s = _
  simp only [EStateM.bind, h]

theorem conduct_ask_error {compare : α → α → EStateM ε σ Ordering} {x y : α} {s s' : σ} {e : ε}
    (h : compare x y s = .error e s') (next : Ordering → Inquiry α β) :
    (ask x y next).conduct compare s = .error e s' := by
  change EStateM.bind _ _ s = _
  simp only [EStateM.bind, h]

theorem Ends.conduct {p : β → Prop} {q : Inquiry α β} (hq : q.Ends p)
    (compare : α → α → EStateM ε σ Ordering) {s s' : σ} {b : β}
    (h : q.conduct compare s = .ok b s') : p b := by
  induction q generalizing s with
  | done b' =>
    cases h
    exact hq
  | ask x y next ih =>
    cases hxy : compare x y s with
    | ok o s₁ => exact ih o (hq o) (conduct_ask_ok hxy next ▸ h)
    | error e s₁ =>
      rw [conduct_ask_error hxy next] at h
      cases h

/-- A comparison that keeps, beside its state, the answers it has given so far, first to last. -/
def recording (compare : α → α → EStateM ε σ Ordering) (x y : α) :
    EStateM ε (σ × List (Except ε Ordering)) Ordering := fun s =>
  match compare x y s.1 with
  | .ok o s' => .ok o (s', s.2 ++ [.ok o])
  | .error e s' => .error e (s', s.2 ++ [.error e])

private theorem conduct_recording (compare : α → α → EStateM ε σ Ordering) (q : Inquiry α β) (s : σ)
    (answers : List (Except ε Ordering)) :
    match q.conduct (recording compare) (s, answers) with
    | .ok b (s', given) => q.conduct compare s = .ok b s' ∧
        ∃ os : List Ordering, given = answers ++ os.map .ok
    | .error e (s', given) => q.conduct compare s = .error e s' ∧
        ∃ os : List Ordering, given = answers ++ os.map .ok ++ [.error e] := by
  induction q generalizing s answers with
  | done b => exact ⟨rfl, [], by simp⟩
  | ask x y next ih =>
    cases hxy : compare x y s with
    | error e s' =>
      have hrec : recording compare x y (s, answers) = .error e (s', answers ++ [.error e]) := by
        simp only [recording, hxy]
      rw [conduct_ask_error hrec, conduct_ask_error hxy]
      exact ⟨rfl, [], by simp⟩
    | ok o s' =>
      have hrec : recording compare x y (s, answers) = .ok o (s', answers ++ [.ok o]) := by
        simp only [recording, hxy]
      rw [conduct_ask_ok hrec, conduct_ask_ok hxy]
      have h := ih o s' (answers ++ [.ok o])
      cases hq : (next o).conduct (recording compare) (s', answers ++ [.ok o]) with
      | ok b t =>
        rw [hq] at h
        obtain ⟨hb, os, hos⟩ := h
        exact ⟨hb, o :: os, by simpa using hos⟩
      | error e t =>
        rw [hq] at h
        obtain ⟨he, os, hos⟩ := h
        exact ⟨he, o :: os, by simpa using hos⟩

/-- Recording changes neither result nor state of an inquiry that succeeds, and all answers it was
given succeeded. -/
theorem conduct_recording_ok {compare : α → α → EStateM ε σ Ordering} {q : Inquiry α β} {s s' : σ}
    {answers given : List (Except ε Ordering)} {b : β}
    (h : q.conduct (recording compare) (s, answers) = .ok b (s', given)) :
    q.conduct compare s = .ok b s' ∧ ∃ os : List Ordering, given = answers ++ os.map .ok := by
  simpa only [h] using conduct_recording compare q s answers

/-- Recording changes neither error nor state of an inquiry that fails. Its error is that of the
last answer, and all answers before succeeded. -/
theorem conduct_recording_error {compare : α → α → EStateM ε σ Ordering} {q : Inquiry α β}
    {s s' : σ} {answers given : List (Except ε Ordering)} {e : ε}
    (h : q.conduct (recording compare) (s, answers) = .error e (s', given)) :
    q.conduct compare s = .error e s' ∧
      ∃ os : List Ordering, given = answers ++ os.map .ok ++ [.error e] := by
  simpa only [h] using conduct_recording compare q s answers

end Inquiry

end Membrane
