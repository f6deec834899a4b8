import Membrane.Proofs.Safety

/-!
# What prototype functions are made of

The functions of lists and sets read the items or members of their target, carry values across, make
script values, call the callback they are given and look after what they hold. Twelve of them also
change what the target holds. They do nothing else. So whatever holds of these parts, and of
computations composed of computations of which it holds, holds of every function; and for a function
that does not write, nothing needs to be known of writing.

## Main definitions

* `Prototype.ListFunction.writes`, `Prototype.SetFunction.writes`: the functions that write.
* `Prototype.HoldsOfParts`: a property of computations that holds of the parts of functions.

## Main results

* `Run.Safe.functionParts`: when the parts are safe.
* `Prototype.HoldsOfParts.listFunction`: such a property holds of the functions of lists.
* `Prototype.HoldsOfParts.setFunction`: such a property holds of the functions of sets.
* `Run.HoldsOfParts.wrapperFunction`: what holds of the functions of wrapped primitives.
-/

namespace Membrane

open Host (Value)

namespace Prototype

/-- Whether a function changes the list it is bound to. -/
def ListFunction.writes : ListFunction → Bool
  | copyWithin | fill | pop | push | reverse | shift | sort | splice | unshift => true
  | _ => false

/-- Whether a function changes the set it is bound to. -/
def SetFunction.writes : SetFunction → Bool
  | add | clear | delete => true
  | _ => false

/-- A property of computations that holds of the parts of the functions of lists and sets that are
given a callback, and of what is composed of parts. -/
structure HoldsOfParts (eng : Engine) (invoke : Invoke) (callback : Script.Value)
    (P : ∀ α : Type, Run α → Prop) : Prop extends Run.HoldsOfParts P where
  /-- Raising a fault that is not internal. -/
  raise {α : Type} {f : Fault} (hf : f.kind ≠ .internal) : P α (Run.raise f)
  /-- Being cut off. -/
  exhausted {α : Type} : P α (throw .exhausted)
  /-- Cleaning up after a computation that ends without a result. -/
  onHalt {α : Type} {x : Run α} {cleanup : Run Unit} (hx : P α x) (hcleanup : P Unit cleanup) :
    P α (x.onHalt cleanup)
  /-- Letting go of what a computation has come to hold. -/
  scope {α : Type} {x : Run α} (hx : P α x) : P α (Run.scope x)
  /-- Keeping only the message of a fault. -/
  asComparison {α : Type} {x : Run α} (hx : P α x) : P α (OnList.asComparison x)
  /-- Holding things. -/
  hold (nodes : List Node) : P _ (Run.hold nodes)
  /-- Releasing a value. -/
  release (v : Script.Value) : P _ (Run.release v)
  /-- Carrying a value to the script. -/
  toScript (v : Value) : P _ (eng.toScript v)
  /-- Carrying a value to the host. -/
  toHost (v : Script.Value) : P _ (eng.toHost v)
  /-- Making a script array. -/
  newScriptArray (items : List Script.Value) : P _ (Run.newScriptArray items)
  /-- Making a plain script object. -/
  newRecord (properties : List (Script.Key × Script.Value)) : P _ (Run.newRecord properties)
  /-- Making an iterator. -/
  newIterator (target : Value) (kind : IterationKind) : P _ (Run.newIterator target kind)
  /-- Calling the callback. -/
  call (this : Script.Value) (args : List Script.Value) : P _ (Run.call invoke callback this args)

end Prototype

/-- Where carrying values across, making script values and the callback are safe, so are all parts
of functions. -/
theorem Run.Safe.functionParts {A : World → Prop} {R : World → World → Prop} [IsPreorder World R]
    {Q : Fault → Prop} (hA : ∀ w w', A w → R w w' → A w')
    (hrest : ∀ w ledger held, R w { w with ledger := ledger, held := held })
    (hQ : ∀ f, f.kind ≠ .internal → Q f) {eng : Engine} {invoke : Invoke} {callback : Script.Value}
    (htoScript : ∀ v, (eng.toScript v).Safe A R Q) (htoHost : ∀ v, (eng.toHost v).Safe A R Q)
    (harray : ∀ items, (Run.newScriptArray items).Safe A R Q)
    (hrecord : ∀ properties, (Run.newRecord properties).Safe A R Q)
    (hiterator : ∀ target kind, (Run.newIterator target kind).Safe A R Q)
    (hcallback : ∀ r, callback = .function r → ∀ this args, (invoke r this args).Safe A R Q) :
    Prototype.HoldsOfParts eng invoke callback fun _ x => x.Safe A R Q where
  toHoldsOfParts := holdsOfParts hA
  raise hf := .raise (hQ _ hf)
  exhausted := .exhausted
  onHalt := onHalt hA
  scope := scope hrest
  asComparison := asComparison fun _ => hQ _ nofun
  hold _ := .modify fun w _ => hrest w w.ledger _
  release _ := .modify fun w _ => hrest w _ w.held
  toScript := htoScript
  toHost := htoHost
  newScriptArray := harray
  newRecord := hrecord
  newIterator := hiterator
  call this args := call hA hrest (fun _ => hQ _ nofun) fun r hr => hcallback r hr this args

/-- What is wrong with a splice is no internal matter. -/
theorem Sequence.kind_of_splice?_eq_error {items inserted : List Value} {args : List Script.Value}
    {f : Fault} (h : Sequence.splice? items args inserted = .error f) : f.kind ≠ .internal := by
  unfold Sequence.splice? at h
  split at h
  · cases h
  · dsimp only at h
    split at h
    · cases h
      nofun
    · cases h

/-! ### Sorting -/

section Sorting

variable {P : ∀ α : Type, Run α → Prop} (hP : Run.HoldsOfParts P) {α : Type}
  {compare : α → α → Run Ordering} (hcompare : ∀ a b, P _ (compare a b))
include hP hcompare

theorem Run.HoldsOfParts.mergeRuns : ∀ xs ys : List α, P _ (Membrane.mergeRuns compare xs ys)
  | [], ys => hP.pure ys
  | x :: xs, ys => by
    -- The merge with what follows `x` is known; the induction is on the run it is merged with.
    change P _ (mergeHead compare x xs (Membrane.mergeRuns compare xs) ys)
    induction ys with
    | nil => exact hP.pure _
    | cons y ys ih =>
      refine hP.bind (hcompare x y) fun c => ?_
      split
      · exact hP.bind ih fun _ => hP.pure _
      · exact hP.bind (mergeRuns xs (y :: ys)) fun _ => hP.pure _

theorem Run.HoldsOfParts.mergePairs : ∀ runs : List (List α), P _ (Membrane.mergePairs compare runs)
  | [] => hP.pure _
  | [_] => hP.pure _
  | r :: s :: rest =>
    hP.bind (hP.mergeRuns hcompare r s) fun _ => hP.bind (mergePairs rest) fun _ => hP.pure _

theorem Run.HoldsOfParts.mergePasses :
    ∀ (n : Nat) (runs : List (List α)), P _ (Membrane.mergePasses compare n runs)
  | n, [] => by
    cases n <;> exact hP.pure _
  | n, [r] => by
    cases n <;> exact hP.pure _
  | 0, _ :: _ :: _ => hP.pure _
  | n + 1, r :: s :: rest =>
    hP.bind (hP.mergePairs hcompare (r :: s :: rest)) fun runs => mergePasses n runs

/-- What holds of a comparison holds of sorting by it. -/
theorem Run.HoldsOfParts.mergeSortBy (items : List α) : P _ (Membrane.mergeSortBy compare items) :=
  hP.mergePasses hcompare _ _

end Sorting

namespace Prototype.HoldsOfParts

variable {eng : Engine} {invoke : Invoke} {steps : Nat} {target : Value} {this : Script.Value}
  {args : List Script.Value} {P : ∀ α : Type, Run α → Prop}
  (hP : HoldsOfParts eng invoke (Arguments.get args 0) P)

/-! ### Arguments and callbacks -/

include hP

theorem scriptText (v : Script.Value) : P _ (Run.scriptText v) :=
  hP.hostText hP.exhausted (.script v) []

theorem toScriptAll (vs : List Value) : P _ (eng.toScriptAll vs) := hP.mapM hP.toScript vs

theorem toHostAll (vs : List Script.Value) : P _ (eng.toHostAll vs) := hP.mapM hP.toHost vs

theorem toScriptArray (vs : List Value) : P _ (eng.toScriptArray vs) :=
  hP.bind (hP.toScriptAll vs) fun _ => hP.newScriptArray _

theorem text (i : Nat) (default : String) : P _ (Arguments.text args i default) := by
  unfold Arguments.text
  split
  · exact hP.pure _
  · exact hP.pure _
  · exact hP.scriptText _

/-- What goes on with a callback goes on with the first argument. -/
theorem callback {α : Type} {f : Script.Value → Run α} (hf : P α (f (Arguments.get args 0))) :
    P α (Arguments.callback args 0 >>= f) := by
  unfold Arguments.callback
  dsimp only
  split
  · exact hf
  · rw [Run.raiseAbout_bind]
    exact hP.raiseAbout hP.exhausted (fun s => hP.raise (f := .notFunction s) nofun) _ []

/-- What goes on with a walk goes on with the first argument as its callback. -/
theorem ofArguments {α : Type} {f : Walk → Run α}
    (hf : ∀ receiver, P α (f ⟨Arguments.get args 0, receiver, this⟩)) :
    P α (Walk.ofArguments this args >>= f) := by
  unfold Walk.ofArguments
  rw [bind_assoc]
  exact hP.callback (hf _)

variable {walk : Walk} (hwalk : walk.callback = Arguments.get args 0)

include hwalk in
theorem walkCall (v : Value) (i : Nat) : P _ (walk.call eng invoke v i) := by
  unfold Walk.call
  rw [hwalk]
  exact hP.bind (hP.toScript v) fun _ => hP.call _ _

include hwalk in
theorem walkTest (v : Value) (i : Nat) : P _ (walk.test eng invoke v i) :=
  hP.bind (hP.walkCall hwalk v i) fun _ => hP.bind (hP.release _) fun _ => hP.pure _

theorem consult (left right : Value) :
    P _ (OnList.consult eng invoke (Arguments.get args 0) left right) :=
  hP.bind (hP.toScript left) fun _ => hP.bind (hP.toScript right) fun _ =>
    hP.bind (hP.call _ _) fun _ => hP.bind (hP.release _) fun _ => hP.pure _

theorem sorted (items : List Value) : P _ (OnList.sorted eng invoke items args[0]?) := by
  unfold OnList.sorted
  split
  · exact hP.bind (hP.mapM (fun v => hP.bind (hP.hostText hP.exhausted v []) fun _ => hP.pure _)
      items) fun _ => hP.pure _
  · next c hc =>
    obtain ⟨harg, -⟩ := Option.filter_eq_some_iff.1 hc
    have hget : Arguments.get args 0 = c := by rw [Arguments.get, harg, Option.getD_some]
    subst hget
    refine hP.scope (hP.bind (hP.hold _) fun _ => hP.asComparison ?_)
    exact hP.mergeSortBy (fun a b => hP.bind (hP.consult a b) fun _ => hP.pure _) items

theorem concatPart (arg : Script.Value) : P _ (OnList.concatPart eng arg) := by
  unfold OnList.concatPart
  split
  · exact hP.look (fun w => hP.pure _) fun w w' h => by rw [h.arrays]
  · refine hP.bind (hP.toHost arg) fun v => hP.look (fun w => ?_) fun w w' h => by rw [h.data]
    split
    · exact hP.toScriptAll _
    · exact hP.toScriptAll _
    · exact hP.pure _

theorem releaseAll (vs : List Script.Value) : P _ (Run.releaseAll vs) := by
  induction vs with
  | nil => exact hP.pure ()
  | cons v vs ih => exact hP.bind (hP.release v) fun _ => ih

/-! ### Loops -/

variable (hitems : P _ (listItems target))
include hitems

theorem listValues : P _ (Membrane.listValues target) := hP.bind hitems fun _ => hP.pure _

theorem elementAt (i : Nat) : P _ (Membrane.elementAt target i) :=
  hP.bind hitems fun _ => hP.pure _

/-- A forward walk: the induction is on the steps it may take. -/
theorem forward {σ β : Type} {step : σ → Value → Nat → Run (Step σ β)} {finish : σ → Run β}
    {giveUp : σ → Run Unit} (hstep : ∀ s v i, P _ (step s v i)) (hfinish : ∀ s, P _ (finish s))
    (hgiveUp : ∀ s, P _ (giveUp s)) :
    ∀ n i s, P _ (Membrane.forward target step finish giveUp n i s)
  | 0, _, _ => hP.exhausted
  | n + 1, i, s => by
    refine hP.bind (hP.onHalt (hP.elementAt hitems i) (hgiveUp s)) fun o => ?_
    cases o with
    | none => exact hfinish s
    | some v =>
      refine hP.bind (hP.onHalt (hstep s v i) (hgiveUp s)) fun outcome => ?_
      cases outcome with
      | next s' => exact forward hstep hfinish hgiveUp n (i + 1) s'
      | done b => exact hP.pure b

/-- A backward walk: the induction is on the index it starts below. -/
theorem backward {β : Type} {step : Value → Nat → Run (Option β)} (hstep : ∀ v i, P _ (step v i)) :
    ∀ i, P _ (Membrane.backward target step i)
  | 0 => hP.pure _
  | i + 1 => by
    refine hP.bind (hP.elementAt hitems i) fun o => ?_
    cases o with
    | none => exact backward hstep i
    | some v =>
      refine hP.bind (hstep v i) fun found => ?_
      cases found with
      | none => exact backward hstep i
      | some b => exact hP.pure _

/-- A fold: the induction is on the indices it goes over. -/
theorem foldIndices :
    ∀ indices acc,
      P _ (OnList.foldIndices eng invoke target this (Arguments.get args 0) indices acc)
  | [], acc => hP.pure acc
  | i :: rest, acc => by
    have hstep : P _ (OnList.foldStep eng invoke target this (Arguments.get args 0) i acc) := by
      refine hP.bind (hP.elementAt hitems i) fun o => ?_
      cases o with
      | none => exact hP.pure _
      | some v => exact hP.bind (hP.toScript v) fun _ => hP.bind (hP.call _ _) fun _ => hP.pure _
    refine hP.bind (hP.onHalt hstep (hP.release acc)) fun o => ?_
    cases o with
    | none => exact foldIndices rest acc
    | some next => exact hP.bind (hP.release acc) fun _ => foldIndices rest next

theorem fold (order : Nat → List Nat) :
    P _ (OnList.fold eng invoke target this args order) := by
  refine hP.callback (hP.bind hitems fun items => ?_)
  dsimp only
  split
  · exact hP.foldIndices hitems _ _
  · split
    · exact hP.raise nofun
    · refine hP.bind (hP.elementAt hitems _) fun o => ?_
      cases o with
      | none => exact hP.raise nofun
      | some v =>
        refine hP.bind (hP.toScript v) fun first => ?_
        split
        · exact hP.pure _
        · exact hP.foldIndices hitems _ _

theorem reduceRight : P _ (OnList.reduceRight eng invoke target this args) := hP.fold hitems _

/-! ### The functions -/

/-- A forward walk that asks the callback for a condition of each element. -/
theorem testWalk {σ : Type} {branch : Walk → σ → Value → Nat → Bool → Run (Step σ Script.Value)}
    {finish : σ → Run Script.Value} (hbranch : ∀ walk s v i b, P _ (branch walk s v i b))
    (hfinish : ∀ s, P _ (finish s)) (s : σ) :
    P _ (Walk.ofArguments this args >>= fun walk =>
      Membrane.forward target (fun s v i => walk.test eng invoke v i >>= branch walk s v i)
        finish nothing steps 0 s) :=
  hP.ofArguments fun _ => hP.forward hitems
    (fun s v i => hP.bind (hP.walkTest rfl v i) (hbranch _ s v i)) hfinish (fun _ => hP.pure ())
    _ _ _

theorem every : P _ (OnList.every eng invoke steps target this args) := by
  refine hP.testWalk hitems (fun _ _ _ _ b => ?_) (fun _ => hP.pure _) ()
  split <;> exact hP.pure _

theorem someOf : P _ (OnList.someOf eng invoke steps target this args) := by
  refine hP.testWalk hitems (fun _ _ _ _ b => ?_) (fun _ => hP.pure _) ()
  split <;> exact hP.pure _

theorem filter : P _ (OnList.filter eng invoke steps target this args) := by
  refine hP.scope (hP.testWalk hitems (fun _ _ v _ b => ?_) (fun _ => hP.toScriptArray _) [])
  split
  · exact hP.bind (hP.hold _) fun _ => hP.pure _
  · exact hP.pure _

theorem find : P _ (OnList.find eng invoke steps target this args) := by
  refine hP.testWalk hitems (fun _ _ v _ b => ?_) (fun _ => hP.pure _) ()
  split
  · exact hP.bind (hP.toScript v) fun _ => hP.pure _
  · exact hP.pure _

theorem findIndex : P _ (OnList.findIndex eng invoke steps target this args) := by
  refine hP.testWalk hitems (fun _ _ _ _ b => ?_) (fun _ => hP.pure _) ()
  split <;> exact hP.pure _

/-- A backward walk that asks the callback for a condition of each element. -/
theorem testBackward {β : Type} {found : Value → Nat → Run β} {finish : Option β → Run Script.Value}
    (hfound : ∀ v i, P _ (found v i)) (hfinish : ∀ o, P _ (finish o)) :
    P _ (Walk.ofArguments this args >>= fun walk => listItems target >>= fun items =>
      Membrane.backward target (fun v i => do
        if ← walk.test eng invoke v i then return some (← found v i) else return none)
        items.size >>= finish) := by
  refine hP.ofArguments fun receiver => hP.bind hitems fun items =>
    hP.bind (hP.backward hitems (fun v i => hP.bind (hP.walkTest rfl v i) fun b => ?_) _) hfinish
  split
  · exact hP.bind (hfound v i) fun _ => hP.pure _
  · exact hP.pure _

theorem findLast : P _ (OnList.findLast eng invoke target this args) :=
  hP.testBackward hitems (fun v _ => hP.toScript v) fun _ => hP.pure _

theorem findLastIndex : P _ (OnList.findLastIndex eng invoke target this args) :=
  hP.testBackward hitems (fun _ i => hP.pure (Script.Value.ofIndex i)) fun _ => hP.pure _

theorem forEach : P _ (OnList.forEach eng invoke steps target this args) :=
  hP.ofArguments fun _ => hP.forward hitems
    (fun _ v i => hP.bind (hP.walkCall rfl v i) fun _ => hP.bind (hP.release _) fun _ => hP.pure _)
    (fun _ => hP.pure _) (fun _ => hP.pure ()) _ _ _

theorem map : P _ (OnList.map eng invoke steps target this args) :=
  hP.scope (hP.ofArguments fun _ => hP.forward hitems
    (fun _ v i => hP.bind (hP.walkCall rfl v i) fun _ => hP.bind (hP.hold _) fun _ => hP.pure _)
    (fun _ => hP.newScriptArray _) (fun _ => hP.releaseAll _) _ _ _)

theorem item : P _ (OnList.item eng target args) := by
  refine hP.bind hitems fun items => ?_
  split
  · exact hP.toScript _
  · exact hP.pure _

theorem concat : P _ (OnList.concat eng target args) :=
  hP.bind (hP.listValues hitems) fun _ => hP.bind (hP.toScriptAll _) fun _ =>
    hP.bind (hP.mapM hP.concatPart args) fun _ => hP.newScriptArray _

theorem search (find : List Value → Value → List Script.Value → Option Nat) :
    P _ (OnList.search eng target args find) := by
  unfold OnList.search
  split
  · exact hP.pure _
  · exact hP.bind (hP.toHost _) fun _ => hP.bind (hP.listValues hitems) fun _ => hP.pure _

theorem join : P _ (OnList.join target args) := by
  refine hP.bind (hP.text 0 ",") fun _ => hP.bind (hP.listValues hitems) fun _ =>
    hP.bind (hP.mapM (fun v => ?_) _) fun _ => hP.pure _
  split
  · exact hP.pure _
  · exact hP.hostText hP.exhausted v []

theorem splice (hput : ∀ items, P _ (putItems target items)) :
    P _ (OnList.splice eng target args) := by
  refine hP.bind (hP.toHostAll _) fun inserted => hP.bind (hP.listValues hitems) fun items => ?_
  split
  · next f hf => exact hP.raise (Sequence.kind_of_splice?_eq_error hf)
  · exact hP.bind (hput _) fun _ => hP.toScriptArray _

theorem toSpliced : P _ (OnList.toSpliced eng target args) := by
  refine hP.bind (hP.toHostAll _) fun inserted => hP.bind (hP.listValues hitems) fun items => ?_
  split
  · next f hf => exact hP.raise (Sequence.kind_of_splice?_eq_error hf)
  · exact hP.toScriptArray _

theorem withItem : P _ (OnList.withItem eng target args) := by
  refine hP.bind (hP.listValues hitems) fun items => ?_
  dsimp only
  split
  · exact hP.raise nofun
  · exact hP.bind (hP.toScriptAll items) fun _ => hP.newScriptArray _

theorem sort (hput : ∀ items, P _ (putItems target items)) :
    P _ (OnList.sort eng invoke target this args) := by
  refine hP.bind (hP.listValues hitems) fun items => ?_
  split
  · exact hP.bind (hP.sorted items) fun _ => hP.bind (hput _) fun _ => hP.pure _
  · exact hP.pure _

theorem fill (hput : ∀ items, P _ (putItems target items)) :
    P _ (OnList.fill eng target this args) := by
  refine hP.bind (hP.listValues hitems) fun items => ?_
  split
  · exact hP.bind (hP.toHost (Arguments.get args 0)) fun _ => hP.bind (hput _) fun _ => hP.pure _
  · exact hP.pure _

/-- An element is taken out of the list and carried to the script. -/
theorem takeOut {element : Array Value → Option Value} {change : Array Value → Array Value}
    (hchange : P _ (modify (·.changeItems target change))) :
    P _ (listItems target >>= fun items => modify (·.changeItems target change) >>= fun _ =>
      match element items with
      | some v => eng.toScript v
      | none => return .undefined) := by
  refine hP.bind hitems fun items => hP.bind hchange fun _ => ?_
  split
  · exact hP.toScript _
  · exact hP.pure _

/-- What holds of the parts of functions holds of the functions of lists. -/
theorem listFunction (f : ListFunction)
    (hput : f.writes = true → ∀ items, P _ (putItems target items))
    (hchange : f.writes = true → ∀ change, P _ (modify (·.changeItems target change))) :
    P _ (f.run eng invoke steps target this args) := by
  have hvalues := hP.listValues hitems
  cases f with
  | item => exact hP.item hitems
  | concat => exact hP.concat hitems
  | copyWithin | reverse =>
    exact hP.bind hvalues fun _ => hP.bind (hput rfl _) fun _ => hP.pure _
  | entries | keys | values => exact hP.newIterator target _
  | every => exact hP.every hitems
  | fill => exact hP.fill hitems (hput rfl)
  | filter => exact hP.filter hitems
  | find => exact hP.find hitems
  | findIndex => exact hP.findIndex hitems
  | findLast => exact hP.findLast hitems
  | findLastIndex => exact hP.findLastIndex hitems
  | forEach => exact hP.forEach hitems
  | includes | indexOf | lastIndexOf => exact hP.bind (hP.search hitems _) fun _ => hP.pure _
  | join => exact hP.join hitems
  | length | size => exact hP.bind hitems fun _ => hP.pure _
  | map => exact hP.map hitems
  | pop | shift => exact hP.takeOut hitems (hchange rfl _)
  | push | unshift =>
    exact hP.bind (hP.toHostAll args) fun _ => hP.bind hitems fun _ =>
      hP.bind (hchange rfl _) fun _ => hP.pure _
  | reduce => exact hP.fold hitems _
  | reduceRight => exact hP.reduceRight hitems
  | slice | toJSON | toReversed => exact hP.bind hvalues fun _ => hP.toScriptArray _
  | someOf => exact hP.someOf hitems
  | sort => exact hP.sort hitems (hput rfl)
  | splice => exact hP.splice hitems (hput rfl)
  | toSorted =>
    exact hP.bind hvalues fun items => hP.bind (hP.sorted items) fun _ => hP.toScriptArray _
  | toSpliced => exact hP.toSpliced hitems
  | withItem => exact hP.withItem hitems

omit hitems

/-! ### The functions of sets -/

theorem visit (receiver : Script.Value) :
    ∀ members, P _ (OnSet.visit eng invoke this (Arguments.get args 0) receiver members)
  | [] => hP.pure ()
  | v :: rest => hP.bind (hP.toScript v) fun _ => hP.bind (hP.call _ _) fun _ =>
      hP.bind (hP.release _) fun _ => visit receiver rest

/-- What holds of the parts of functions holds of the functions of sets. -/
theorem setFunction (f : SetFunction) (hmembers : P _ (setMembers target))
    (hchange : f.writes = true → ∀ change, P _ (modify (·.changeMembers target change))) :
    P _ (f.run eng invoke target this args) := by
  cases f with
  | add =>
    exact hP.bind (hP.toHost _) fun _ => hP.bind hmembers fun _ =>
      hP.bind (hchange rfl _) fun _ => hP.pure _
  | clear => exact hP.bind hmembers fun _ => hP.bind (hchange rfl _) fun _ => hP.pure _
  | delete =>
    exact hP.bind (hP.toHost _) fun _ => hP.bind hmembers fun _ =>
      hP.bind (hchange rfl _) fun _ => hP.pure _
  | entries | keys | values => exact hP.newIterator target _
  | forEach =>
    exact hP.scope (hP.callback (hP.bind hmembers fun _ => hP.bind (hP.hold _) fun _ =>
      hP.bind (hP.visit _ _) fun _ => hP.pure _))
  | has => exact hP.bind (hP.toHost _) fun _ => hP.bind hmembers fun _ => hP.pure _
  | size => exact hP.bind hmembers fun _ => hP.pure _
  | toJSON => exact hP.newRecord []
  | toString => exact hP.pure _

end Prototype.HoldsOfParts

/-! ### The functions of wrapped primitives -/

/-- What holds of carrying the target to the script, and of the fault for a target that is no
primitive, holds of the functions of wrapped primitives. -/
theorem Run.HoldsOfParts.wrapperFunction {P : ∀ α : Type, Run α → Prop} (hP : Run.HoldsOfParts P)
    {eng : Engine} {target : Value} (hscript : P _ (eng.toScript target))
    (hfault : P Script.Value (Run.raiseAbout target (.wrongTarget · "primitive")))
    (f : Prototype.WrapperFunction) : P _ (f.run eng target) := by
  unfold Prototype.WrapperFunction.run
  split
  · split
    · exact hP.pure _
    · exact hfault
  · exact hscript

end Membrane
