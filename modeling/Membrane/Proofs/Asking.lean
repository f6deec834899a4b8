import Membrane.Proofs.Stopping

/-!
# Walks that ask for a condition

Functions of lists that ask a callback for a condition are made of a loop over the elements, forward
or backward, and of what is done with the truth of what a call returns: to go on, or to answer. If
the callback leaves the list alone and its truth is that of a condition on the element and its
index, such a function walks up to the element at which it answers.

## Main definitions

* `Walk.asking`: a loop that makes something of the truth of what the callback returns.
* `Walk.HasTruth`: that the truth depends on nothing but the element and its index.

## Main results

* `accounted_forward`, `accounted_backward`: both loops take the items there are in turn.
* `walks_forward`, `walks_backward`: what a function does that answers at some truths.
-/

namespace Membrane

open Host (Value)

/-! ### Loops that ask -/

/-- The loop of a walk that asks the callback for a condition and holds nothing itself. -/
def Walk.asking {σ β : Type} (walk : Walk) (branch : σ → Value → Nat → Bool → Run (Step σ β))
    (finish : σ → Run β) : Turns σ β where
  callOn _ element i := walk.callOn element i
  react s v i a := do
    Run.release a
    branch s v i a.truthy
  finish := finish
  giveUp := nothing

section Asking

variable {σ β : Type} {eng : Engine} {invoke : Invoke} {target : Value} {walk : Walk}
  {branch : σ → Value → Nat → Bool → Run (Step σ β)} {finish : σ → Run β}
  {next : σ → Value → Nat → Bool → Option σ} {answer : Value → Nat → Run β} {I : World → Prop}

theorem turn_asking (s : σ) (v : Value) (i : Nat) :
    (walk.asking branch finish).turn eng invoke s v i =
      walk.test eng invoke v i >>= branch s v i := by
  simp only [Turns.turn, Turns.ask, Walk.test, Walk.call, bind_assoc, pure_bind]
  rfl

/-- What touches no host object leaves lists alone. -/
theorem Run.Quiet.keepsList {α : Type} {x : Run α} (h : x.Quiet) (target : Value) :
    x.Within (World.KeepsList target) := fun w => (h.alike w).list? target

theorem within_turn_asking (hkeeps : LeavesList I invoke walk.callback target)
    (hquiet : ∀ s v i b, (branch s v i b).Quiet)
    (hadds : ∀ s v i b, (branch s v i b).Within World.Adds) (s : σ) (v : Value) (i : Nat) :
    ((walk.asking branch finish).turn eng invoke s v i).Within
      (World.Under I (World.KeepsList target)) := by
  refine Turns.within_turn (fun _ _ _ => rfl) hkeeps (fun s v i a => ?_) s v i
  exact .bind (hkeeps.within_of_adds (Run.adds_release a) fun _ => rfl) fun _ =>
    hkeeps.within_of_adds (hadds s v i _) ((hquiet s v i _).keepsList target)

variable (next) in
theorem does_asking (hquiet : ∀ s v i b, (branch s v i b).Quiet)
    (hbranch : ∀ s v i a w,
      Reacts (fun s v i a => next s v i a.truthy) answer s v i a (branch s v i a.truthy w))
    (hfinish : ∀ s, (finish s).Quiet) :
    (walk.asking branch finish).Does invoke (fun s v i a => next s v i a.truthy) answer where
  reacts s v i a _ := .bind_release fun w₁ _ =>
    .of_quiet (hquiet s v i a.truthy) ⟨rfl, hbranch s v i a w₁⟩
  finishes := hfinish
  givesUp _ _ := .pure rfl

end Asking

/-! ### Loops over the items there are -/

section Forward

variable {σ : Type} {eng : Engine} {invoke : Invoke} {steps : Nat} {target : Value}
  {this : Script.Value} {args : List Script.Value} {items : List Value} {w : World}
  {I : World → Prop}

/-- A loop of a function that reads the list on takes the items there are in turn. -/
theorem accounted_forward {t : Turns σ Script.Value}
    {next : σ → Value → Nat → Script.Value → Option σ} {answer : Value → Nat → Run Script.Value}
    (next' : σ → Value → Nat → Script.Value → Option σ) (ht : t.Does invoke next answer)
    (hturn : ∀ s v i, (t.turn eng invoke s v i).Within (World.Under I (World.KeepsList target)))
    (hnext : ∀ v i, items[i]? = some v → ∀ s w a w', I w →
      t.ask eng invoke s v i w = .ok a w' → next s v i a = next' s v i a)
    (hsteps : items.length < steps) (hw : I w) (hlist : w.list? target = some items.toArray)
    (s : σ) :
    (forward target (t.turn eng invoke) t.finish t.giveUp steps 0 s).Accounted invoke w
      fun ds r => ∃ e, TakesTurns eng invoke t.callOn next' s items.zipIdx (Deed.calls ds) e ∧
        e.Gives t.finish answer r := by
  unfold Run.Accounted
  rw [forward_eq_run hturn (Nat.zero_le _) (by omega) hw hlist s, List.drop_zero]
  exact Turns.accounted_run next' ht hturn
    (fun p hp => hnext p.1 p.2 (List.mem_zipIdx_iff_getElem?.1 hp)) s hw

/-- A loop of a function that settles the length and goes over the indices from the last to the
first takes the items there are in turn. -/
theorem accounted_backward {β : Type} {t : Turns Unit (Option β)}
    {step : Value → Nat → Run (Option β)}
    {next : Unit → Value → Nat → Script.Value → Option Unit} {answer : Value → Nat → Run (Option β)}
    (next' : Unit → Value → Nat → Script.Value → Option Unit) (ht : t.Does invoke next answer)
    (hturn : ∀ v i, (t.turn eng invoke () v i).Within (World.Under I (World.KeepsList target)))
    (hstep : ∀ v i, t.turn eng invoke () v i = pickStep (step v i))
    (hfinish : t.finish () = pure none) (hgiveUp : t.giveUp = nothing)
    (hnext : ∀ v i, items[i]? = some v → ∀ s w a w', I w →
      t.ask eng invoke s v i w = .ok a w' → next s v i a = next' s v i a)
    (hw : I w) (hlist : w.list? target = some items.toArray) :
    (backward target step items.length).Accounted invoke w fun ds r => ∃ e,
      TakesTurns eng invoke t.callOn next' () items.zipIdx.reverse (Deed.calls ds) e ∧
        e.Gives t.finish answer r := by
  unfold Run.Accounted
  rw [backward_eq_run hturn hstep hfinish hgiveUp (Nat.le_refl _) hw hlist,
    List.take_of_length_le (by rw [List.length_zipIdx])]
  exact Turns.accounted_run next' ht (fun _ => hturn) (fun p hp =>
    hnext p.1 p.2 (List.mem_zipIdx_iff_getElem?.1 (List.mem_reverse.1 hp))) () hw

end Forward

/-! ### Truths that end a loop -/

/-- What a callback returns for the items of a list, called on them under a condition, has a truth
that depends on nothing but the item and its index. -/
def Walk.HasTruth (walk : Walk) (I : World → Prop) (eng : Engine) (invoke : Invoke)
    (items : List Value) (truth : Value → Nat → Bool) : Prop :=
  ∀ v i, items[i]? = some v → ∀ w a w', I w → walk.call eng invoke v i w = .ok a w' →
    a.truthy = truth v i

/-- The next state of a loop that some truths end. -/
def unlessEnds (ends : Bool → Bool) : Unit → Value → Nat → Bool → Option Unit :=
  fun _ _ _ b => if ends b then none else some ()

section Deciding

variable {β : Type} {branch : Unit → Value → Nat → Bool → Run (Step Unit β)}
  {answer : Value → Nat → Run β} {ends : Bool → Bool}
  (hgo : ∀ v i b, ends b = false → branch () v i b = pure (.next ()))
  (hend : ∀ v i b, ends b = true → branch () v i b = (do return .done (← answer v i)))
include hgo hend

/-- A branch goes on with some truths and answers with the others. -/
theorem reacts_branch (s : Unit) (v : Value) (i : Nat) (a : Script.Value) (w : World) :
    Reacts (fun s v i a => unlessEnds ends s v i a.truthy) answer s v i a
      (branch s v i a.truthy w) := by
  cases hends : ends a.truthy with
  | false =>
    rw [hgo v i _ hends]
    exact .next (by rw [unlessEnds, hends]; rfl)
  | true =>
    have hnone : unlessEnds ends s v i a.truthy = none := by rw [unlessEnds, hends]; rfl
    rw [hend v i _ hends]
    cases hanswer : answer v i w with
    | ok b w₁ =>
      rw [Run.bind_of_ok hanswer]
      exact .done hnone hanswer
    | error e w₁ =>
      rw [Run.bind_of_error hanswer]
      exact .spoilt hnone hanswer

theorem quiet_branch (hquiet : ∀ v i, (answer v i).Quiet) (s : Unit) (v : Value) (i : Nat)
    (b : Bool) : (branch s v i b).Quiet := by
  cases hends : ends b with
  | false =>
    rw [hgo v i b hends]
    exact .pure _
  | true =>
    rw [hend v i b hends]
    exact .bind (hquiet v i) fun _ => .pure _

theorem adds_branch (hadds : ∀ v i, (answer v i).Within World.Adds) (s : Unit) (v : Value) (i : Nat)
    (b : Bool) : (branch s v i b).Within World.Adds := by
  cases hends : ends b with
  | false =>
    rw [hgo v i b hends]
    exact .pure _
  | true =>
    rw [hend v i b hends]
    exact .bind (hadds v i) fun _ => .pure _

end Deciding

/-! ### Answers that are looked for from the end -/

section Last

variable {found : Value → Nat → Run Script.Value} {none : Script.Value} {e : Ending Unit}
  {w : World}

/-- What a function answers its loop with that looks for an element from the end. -/
def pickAnswer (found : Value → Nat → Run Script.Value) (v : Value) (i : Nat) :
    Run (Option Script.Value) := do return some (← found v i)

/-- What such a function makes of a truth. -/
def pickBranch (found : Value → Nat → Run Script.Value) :
    Unit → Value → Nat → Bool → Run (Step Unit (Option Script.Value)) :=
  fun _ v i b => if b then do return .done (some (← found v i)) else return .next ()

/-- An answer that is found ends a walk from the end, and none does not. -/
theorem Ending.Gives.getD {o : Option Script.Value}
    (h : e.Gives (fun _ => pure Option.none) (pickAnswer found) (.ok o w)) :
    e.Gives (fun _ => pure none) found (.ok (o.getD none) w) := by
  cases h with
  | passed h =>
    cases h
    exact .passed rfl
  | answered h =>
    obtain ⟨b, w₁, hb, h⟩ := Run.bind_eq_ok h
    cases h
    exact .answered hb

theorem Ending.Gives.of_error {e' : Halt}
    (h : e.Gives (fun _ => pure Option.none) (pickAnswer found) (.error e' w)) :
    e.Gives (fun _ => pure none) found (.error e' w) := by
  cases h with
  | passed h => cases h
  | spoilt h w' =>
    obtain hb | ⟨b, w₁, -, h⟩ := Run.bind_eq_error h
    · exact .spoilt hb w
    · cases h
  | halted => exact .halted e' w

end Last

/-! ### Functions that ask -/

section Functions

variable {eng : Engine} {invoke : Invoke} {steps : Nat} {target : Value} {this : Script.Value}
  {args : List Script.Value} {items : List Value} {truth : Value → Nat → Bool} {w : World}
  {I : World → Prop} (hcallback : (Arguments.get args 0).isFunction = true)
  (hkeeps : LeavesList I invoke (Arguments.get args 0) target)
  (htruth : (walkOf this args).HasTruth I eng invoke items truth) (hw : I w)
  (hlist : w.list? target = some items.toArray)

include hcallback in
/-- A callable callback makes a walk. -/
theorem ofArguments_eq_ok (w : World) :
    Walk.ofArguments this args w = .ok (walkOf this args) w :=
  Walk.ofArguments_eq_ok hcallback

/-- Some truths end a loop. -/
theorem isNone_unlessEnds {ends : Bool → Bool} (s : Unit) (v : Value) (i : Nat) (b : Bool) :
    (unlessEnds ends s v i b).isNone = ends b := by
  rw [unlessEnds]
  cases ends b <;> rfl

include htruth in
/-- Called on an item, the callback returns a value whose truth is that of the item. -/
theorem truthy_of_ask {σ β : Type} {branch : σ → Value → Nat → Bool → Run (Step σ β)}
    {finish : σ → Run β} {v : Value} {i : Nat} (hv : items[i]? = some v) {s : σ} {w : World}
    {a : Script.Value} {w' : World} (hw : I w)
    (ha : ((walkOf this args).asking branch finish).ask eng invoke s v i w = .ok a w') :
    a.truthy = truth v i :=
  htruth v i hv w a w' hw ha

include hcallback hkeeps htruth hw hlist in
/-- A function that reads the list on and asks for a condition walks over the items there are. -/
theorem walks_forward {branch : Unit → Value → Nat → Bool → Run (Step Unit Script.Value)}
    {answers : List (Call × Outcome Script.Value) → Script.Value → World → Prop}
    (ends : Bool → Bool) (answer : Value → Nat → Run Script.Value) (none : Script.Value)
    (hsteps : items.length < steps)
    (hgo : ∀ v i b, ends b = false → branch () v i b = pure (.next ()))
    (hend : ∀ v i b, ends b = true → branch () v i b = (do return .done (← answer v i)))
    (hcrosses : OnlyCrosses eng answer)
    (hanswer : ∀ cs v i w b w', items[i]? = some v →
      IsLeast (Sequence.indicesWhere items fun v i => ends (truth v i)) i →
      answer v i w = .ok b w' → answers cs b w')
    (hnone : Sequence.indicesWhere items (fun v i => ends (truth v i)) = ∅ →
      ∀ cs w, answers cs none w) :
    (do
      let walk ← Walk.ofArguments this args
      forward target (fun s v i => walk.test eng invoke v i >>= branch s v i)
        (fun () => return none) nothing steps 0 () : Run Script.Value).Accounted invoke w
      fun ds r => WalksElements eng invoke (walkOf this args) (fun v i => ends (truth v i))
        items.zipIdx answers (Deed.calls ds) r := by
  have hbranch := quiet_branch hgo hend hcrosses.quiet
  have hadds := adds_branch hgo hend hcrosses.adds
  have hdoes : ((walkOf this args).asking branch fun _ => return none).Does invoke
      (fun s v i a => unlessEnds ends s v i a.truthy) answer :=
    does_asking (unlessEnds _) hbranch (reacts_branch hgo hend) fun _ => .pure none
  have hstep : (fun s v i => (walkOf this args).test eng invoke v i >>= branch s v i) =
      ((walkOf this args).asking branch fun _ => return none).turn eng invoke := by
    funext s v i
    exact (turn_asking s v i).symm
  refine .bind_of_ok (ofArguments_eq_ok hcallback w) ?_
  rw [hstep]
  have hnext (v : Value) (i : Nat) (hv : items[i]? = some v) (s : Unit) (w : World)
      (a : Script.Value) (w' : World) (hw : I w)
      (ha : ((walkOf this args).asking branch fun _ => return none).ask eng invoke s v i w =
        .ok a w') : unlessEnds ends s v i a.truthy = unlessEnds ends s v i (truth v i) := by
    rw [truthy_of_ask htruth hv hw ha]
  refine (accounted_forward (fun s v i _ => unlessEnds ends s v i (truth v i)) hdoes
    (within_turn_asking hkeeps hbranch hadds) hnext hsteps hw hlist ()).mono ?_
  rintro ds r ⟨e, h, hr⟩
  refine h.walksElements hr (fun s v i _ => isNone_unlessEnds s v i (truth v i))
    (fun v i w b w' hfind hb => ?_) hcrosses (fun s' w b w' _ hfind hb => ?_)
    (fun _ _ _ _ _ hb => by cases hb)
  · obtain ⟨hv, hleast⟩ := Sequence.isLeast_of_find? (fun v i => ends (truth v i)) hfind
    exact hanswer _ v i w b w' hv hleast hb
  · cases hb
    exact hnone (Sequence.eq_empty_of_find? (fun v i => ends (truth v i))
      (fun p => List.mem_zipIdx_iff_getElem?) hfind) _ _

include hcallback hkeeps htruth hw hlist in
/-- A function that settles the length and looks for an element from the end walks over the items
there are. -/
theorem walks_backward (found : Value → Nat → Run Script.Value) (none : Script.Value)
    {answers : List (Call × Outcome Script.Value) → Script.Value → World → Prop}
    (hcrosses : OnlyCrosses eng found)
    (hfound : ∀ cs v i w b w', items[i]? = some v →
      IsGreatest (Sequence.indicesWhere items truth) i → found v i w = .ok b w' → answers cs b w')
    (hnone : Sequence.indicesWhere items truth = ∅ → ∀ cs w, answers cs none w) :
    (do
      let walk ← Walk.ofArguments this args
      let length := (← listItems target).size
      let result ← backward target
        (fun v i => do
          if ← walk.test eng invoke v i then return some (← found v i) else return Option.none)
        length
      return result.getD none : Run Script.Value).Accounted invoke w fun ds r =>
      WalksElements eng invoke (walkOf this args) truth items.zipIdx.reverse answers
        (Deed.calls ds) r := by
  have hgo (v : Value) (i : Nat) (b : Bool) (hb : id b = false) :
      pickBranch found () v i b = pure (.next ()) := by
    cases hb
    rfl
  have hend (v : Value) (i : Nat) (b : Bool) (hb : id b = true) :
      pickBranch found () v i b = (do return .done (← pickAnswer found v i)) := by
    cases hb
    simp only [pickBranch, pickAnswer, if_true, bind_assoc, pure_bind]
  have hbranch := quiet_branch hgo hend fun v i => .bind (hcrosses.quiet v i) fun _ => .pure _
  have hadds := adds_branch hgo hend fun v i => .bind (hcrosses.adds v i) fun _ => .pure _
  have hdoes : ((walkOf this args).asking (pickBranch found) fun _ => pure Option.none).Does
      invoke (fun s v i a => unlessEnds id s v i a.truthy) (pickAnswer found) :=
    does_asking (unlessEnds _) hbranch (reacts_branch hgo hend) fun _ => .pure _
  have hstep (v : Value) (i : Nat) :
      ((walkOf this args).asking (pickBranch found) fun _ => pure Option.none).turn eng invoke () v
        i = pickStep (do
          if ← (walkOf this args).test eng invoke v i then return some (← found v i)
          else return Option.none) := by
    rw [turn_asking, pickStep, bind_assoc]
    refine congrArg (_ >>= ·) (funext fun b => ?_)
    cases b with
    | false => rfl
    | true => simp only [pickBranch, if_true, bind_assoc, pure_bind]
  have hitems (p : Value × Nat) : p ∈ items.zipIdx.reverse ↔ items[p.2]? = some p.1 :=
    List.mem_reverse.trans List.mem_zipIdx_iff_getElem?
  -- What the loop ends with is an option, and the function puts its answer for none in its place.
  have hwalks {cs : List (Call × Outcome Script.Value)} {e : Ending Unit}
      {r : Outcome Script.Value}
      (h : TakesTurns eng invoke (fun _ => (walkOf this args).callOn)
        (fun s v i _ => unlessEnds id s v i (truth v i)) () items.zipIdx.reverse cs e)
      (hr : e.Gives (fun _ => pure none) found r) :
      WalksElements eng invoke (walkOf this args) truth items.zipIdx.reverse answers cs r := by
    refine h.walksElements hr (fun s v i _ => isNone_unlessEnds s v i (truth v i))
      (fun v i w b w' hfind hb => ?_) hcrosses (fun s' w b w' _ hfind hb => ?_)
      (fun _ _ _ _ _ hb => by cases hb)
    · obtain ⟨hv, hgreatest⟩ := Sequence.isGreatest_of_find? truth hfind
      exact hfound cs v i w b w' hv hgreatest hb
    · cases hb
      exact hnone (Sequence.eq_empty_of_find? truth hitems hfind) cs _
  have hnext (v : Value) (i : Nat) (hv : items[i]? = some v) (s : Unit) (w : World)
      (a : Script.Value) (w' : World) (hw : I w)
      (ha : ((walkOf this args).asking (pickBranch found) fun _ => pure Option.none).ask eng invoke
        s v i w = .ok a w') : unlessEnds id s v i a.truthy = unlessEnds id s v i (truth v i) := by
    rw [truthy_of_ask htruth hv hw ha]
  refine .bind_of_ok (ofArguments_eq_ok hcallback w) (.bind_of_ok
    (listItems_eq_ok_of_list? hlist) (.bind (accounted_backward
      (fun s v i _ => unlessEnds id s v i (truth v i)) hdoes
      (within_turn_asking hkeeps hbranch hadds ()) hstep rfl rfl hnext hw hlist) ?_ ?_))
  · rintro ds o w₁ ⟨e, h, hr⟩
    refine .pure ?_
    rw [List.append_nil]
    exact hwalks h hr.getD
  · rintro ds e' w₁ ⟨e, h, hr⟩
    exact hwalks h hr.of_error

end Functions

end Membrane
