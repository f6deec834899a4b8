import Membrane.Dispatch
import Membrane.Proofs.Crossing
import Membrane.Proofs.Exposure

/-!
# Requests to a handler

What an engine can ask of a handler is one of five requests, and each has an answer of its own kind.
Calling a trap of a handler that is still held is making the request: the property and the value are
arguments of the trap, and the answer is given as a script value. A script makes requests one after
the other, and a request that fails does not keep it from the next.

To answer, a handler looks at the storage and the exposed fields of its target, carries values
across, writes an element or a field, and calls methods. So whatever holds of these parts, and of
computations composed of computations of which it holds, holds of every request.

## Main definitions

* `Request`, `Answer`, `Request.run`: one request.
* `Request.runAll`: requests one after the other.
* `Handler.HoldsOfReads`, `Handler.HoldsOfWrites`, `Handler.HoldsOfParts`: a property of
  computations that holds of the parts of answers, those that change nothing first and accessor
  methods last.
* `Request.accessor?`: the method that a request may call.

## Main results

* `Engine.callTrap_of_held`: calling a trap.
* `Handler.HoldsOfWrites.run`, `Handler.HoldsOfParts.run`: a property that holds of the parts holds
  of every request.
* `Engine.within_callTrap`: a relation that the parts keep is kept by calls of traps.
-/

namespace Membrane

open Host (Value)

/-- What can be asked of a handler. -/
inductive Request where
  /-- The value of a property. -/
  | get (property : Script.Value)
  /-- Whether a property is there. -/
  | has (property : Script.Value)
  /-- To write a property. -/
  | set (property value : Script.Value)
  /-- To delete a property. -/
  | delete (property : Script.Value)
  /-- The keys. -/
  | ownKeys
  deriving DecidableEq

/-- The answer to a request. -/
inductive Answer where
  /-- The value of a property. -/
  | value (v : Script.Value)
  /-- Whether it is so, or was done. -/
  | truth (b : Bool)
  /-- The keys. -/
  | keys (ks : List String)
  deriving DecidableEq

/-- An answer as a script value. -/
def Answer.give : Answer → Run Script.Value
  | value v => return v
  | truth b => return .boolean b
  | keys ks => Run.newScriptArray (ks.map .string)

/-- What a computation ended with. -/
def Outcome.result {α : Type} : Outcome α → Except Halt α
  | .ok a _ => .ok a
  | .error e _ => .error e

namespace Request

/-- The trap that a request calls. -/
def trap : Request → Trap
  | get _ => .get
  | has _ => .has
  | set _ _ => .set
  | delete _ => .deleteProperty
  | ownKeys => .ownKeys

/-- The arguments of the trap. The first stands for the target. -/
def args (target : Script.Value) : Request → List Script.Value
  | get property | has property | delete property => [target, property]
  | set property value => [target, property, value]
  | ownKeys => [target]

variable (eng : Engine) (r : Ref .handler) (h : Handler)

/-- A handler answers a request. -/
def run : Request → Run Answer
  | get property => do return .value (← eng.getProperty h property)
  | has property => do return .truth (← eng.hasProperty h property)
  | set property value => do return .truth (← eng.setProperty h property value)
  | delete property => do return .truth (← Run.deleteProperty h.target property)
  | ownKeys => do return .keys (← Run.ownKeys r)

/-- What comes of requests made one after the other, and the world they lead to. -/
def runAll : List Request → World → List (Except Halt Answer) × World
  | [], w => ([], w)
  | q :: rest, w =>
    let outcome : Outcome Answer := q.run eng r h w
    let later := runAll rest outcome.world
    (outcome.result :: later.1, later.2)

end Request

/-- To call a trap of a handler that is held is to make the request. -/
theorem Engine.callTrap_of_held {eng : Engine} {r : Ref .handler} {h : Handler} {w : World}
    (hr : w.handlers.get? r = some h) (hheld : w.holds r.node = true) (q : Request)
    (target : Script.Value) :
    eng.callTrap r q.trap (q.args target) w = (q.run eng r h >>= Answer.give) w := by
  unfold callTrap
  rw [Run.get_bind, hr, Option.filter_some, if_pos hheld]
  cases q with
  | get property =>
    change eng.getProperty h property w =
      ((eng.getProperty h property >>= fun v => pure (.value v)) >>= Answer.give) w
    simp only [bind_assoc, pure_bind, Answer.give, bind_pure]
  | _ =>
    simp only [Request.run, bind_assoc, pure_bind]
    rfl

/-! ### The parts of answers -/

/-- Whether a callable is a prototype function. -/
def Callable.isPrototype : Callable → Bool
  | prototype _ _ => true
  | _ => false

/-- A property of computations that holds of what a handler does to look at its target, and of what
is composed of parts. -/
structure Handler.HoldsOfReads (h : Handler) (eng : Engine) (P : ∀ α : Type, Run α → Prop) : Prop
    extends Run.HoldsOfParts P where
  /-- Reading an exposed field of the target. -/
  readField {name : String} {entry : Descriptor.FieldEntry}
    (hentry : h.descriptor.field? name = some entry) {α : Type} {f : Value → Run α}
    (hf : ∀ v, P α (f v)) : P α (MonadState.get >>= fun w => f (w.readField entry h.target))
  /-- Reading a prototype property of the target. -/
  readPrototype {name : String} {f : Prototype.Function} (hf : h.prototype? name = some f) :
    P _ (f.read h.target)
  /-- Carrying a value to the script. -/
  toScript (v : Value) : P _ (eng.toScript v)
  /-- Carrying a value to the host. -/
  toHost (v : Script.Value) : P _ (eng.toHost v)
  /-- Not ending. -/
  exhausted {α : Type} : P α (throw .exhausted)
  /-- Making a callable, prototype functions aside. -/
  newFunction {c : Callable} (hc : c.isPrototype = false) : P _ (Run.newFunction c)
  /-- Capturing keys. -/
  uniqueKeys (r : Ref .handler) : P _ (Run.uniqueKeys r)

/-- A property of computations that holds of the parts of a handler's answers, accessor methods
aside, and of what is composed of parts. -/
structure Handler.HoldsOfWrites (h : Handler) (eng : Engine) (P : ∀ α : Type, Run α → Prop) : Prop
    extends h.HoldsOfReads eng P where
  /-- Writing an element of the target. -/
  setElement (name : String) (v : Value) : P _ (Run.setElement h.target name v)
  /-- Writing an exposed field of the target. -/
  writeField {name : String} {entry : Descriptor.FieldEntry}
    (hentry : h.descriptor.field? name = some entry) (v : Value) :
    P _ (Run.writeField entry h.target v)
  /-- Deleting an element of the target. -/
  deleteProperty (property : Script.Value) : P _ (Run.deleteProperty h.target property)

/-- A property of computations that holds of the parts of a handler's answers and of what is
composed of parts. -/
structure Handler.HoldsOfParts (h : Handler) (eng : Engine) (P : ∀ α : Type, Run α → Prop) : Prop
    extends h.HoldsOfWrites eng P where
  /-- Calling an exposed method of the target. -/
  callMethod {m : Host.Method} (hm : h.descriptor.Exposes m) (args : List Value) :
    P _ (eng.callMethod m h.target args)

namespace Run.HoldsOfParts

variable {P : ∀ α : Type, Run α → Prop} (hP : Run.HoldsOfParts P)
  (hexhausted : ∀ {α : Type}, P α (throw .exhausted))
include hP hexhausted

/-- To read a prototype property is to count elements or to make a callable. -/
theorem readPrototype (hraise : ∀ {α : Type} (f : Fault), P α (Run.raise f))
    (hnew : ∀ c, P _ (Run.newFunction c)) (f : Prototype.Function) (target : Value) :
    P _ (f.read target) := by
  have hitems : P _ (listItems target) := by
    refine hP.look (fun w => ?_) fun w w' hsame => by simp only [World.list?, hsame.data]
    split
    · exact hP.pure _
    · exact hP.raiseAbout hexhausted (fun _ => hraise _) target []
  have hmembers : P _ (setMembers target) := by
    refine hP.look (fun w => ?_) fun w w' hsame => by simp only [World.set?, hsame.data]
    split
    · exact hP.pure _
    · exact hP.raiseAbout hexhausted (fun _ => hraise _) target []
  unfold Prototype.Function.read
  split
  · exact hP.bind hitems fun _ => hP.pure _
  · exact hP.bind hitems fun _ => hP.pure _
  · exact hP.bind hmembers fun _ => hP.pure _
  · exact hnew _

/-- To list keys is to write their texts. -/
theorem keyTexts (keys : List Value) : P _ (Run.keyTexts keys) :=
  hP.mapM (fun v => hP.hostText hexhausted v []) _

theorem capturedKeys (h : Handler) : P _ (Run.capturedKeys h) := by
  refine hP.look (fun w => ?_) fun w w' hsame => by rw [hsame.data]
  split
  case h_3 => exact hP.pure _
  all_goals exact hP.bind (hP.keyTexts hexhausted _) fun _ => hP.pure _

end Run.HoldsOfParts

/-- To capture keys is to change handlers at most. -/
theorem Run.within_uniqueKeys {R : World → World → Prop} [IsPreorder World R]
    (hhandlers : ∀ w handlers, R w { w with handlers := handlers }) (r : Ref .handler) :
    (Run.uniqueKeys r).Within R := by
  refine .bind .get fun w => ?_
  split
  · exact .pure _
  · split
    · exact .pure _
    · exact .bind (Run.Within.holdsOfParts.capturedKeys (.throw _) _) fun keys =>
        .bind (fun w => hhandlers w _) fun _ => .pure _

namespace Handler.HoldsOfReads

variable {eng : Engine} {h : Handler} {P : ∀ α : Type, Run α → Prop} (hP : h.HoldsOfReads eng P)
include hP

theorem answerWith {α β : Type} {f : α → Run β} (hf : ∀ a, P β (f a)) (o : Option α) :
    P _ (Run.answerWith f o) := by
  cases o with
  | none => exact hP.pure _
  | some a => exact hP.bind (hf a) fun _ => hP.pure _

theorem firstAnswer {α : Type} : {resolvers : List (Run (Option α))} →
    (∀ x ∈ resolvers, P _ x) → P _ (Run.firstAnswer resolvers)
  | [], _ => hP.pure _
  | x :: rest, h => by
    refine hP.bind (h x List.mem_cons_self) fun o => ?_
    cases o with
    | none => exact firstAnswer fun y hy => h y (List.mem_cons_of_mem x hy)
    | some a => exact hP.pure _

theorem getElement (property : Script.Value) : P _ (eng.getElement h property) := by
  refine hP.look (fun w => ?_) fun w w' hsame => by
    simp only [World.array?, World.element?, hsame.data]
  split
  · exact hP.pure _
  · split
    · split
      · exact hP.pure _
      · exact hP.answerWith hP.toScript _
    · exact hP.answerWith hP.toScript _

theorem getField (property : Script.Value) : P _ (eng.getField h property) := by
  unfold Engine.getField
  cases hentry : property.propertyName?.bind h.descriptor.field? with
  | none => exact hP.look (fun w => hP.pure _) fun w w' _ => rfl
  | some entry =>
    obtain ⟨name, -, hfound⟩ := Option.bind_eq_some_iff.1 hentry
    have hread (v : Value) : P _ (Run.answerWith eng.toScript (some v)) :=
      hP.answerWith hP.toScript _
    exact hP.readField hfound hread

theorem getMethod (property : Script.Value) : P _ (Engine.getMethod h property) :=
  hP.answerWith (fun _ => hP.newFunction rfl) _

theorem getSymbol (property : Script.Value) : P _ (Engine.getSymbol h property) := by
  unfold Engine.getSymbol
  split
  · refine hP.look (fun w => ?_) fun w w' hsame => by
      simp only [World.isIterable, World.defaultKind, hsame.data]; rfl
    split
    · exact hP.bind (hP.newFunction rfl) fun _ => hP.pure _
    · split
      · exact hP.bind (hP.newFunction rfl) fun _ => hP.pure _
      · exact hP.pure _
  · exact hP.pure _

theorem getPrototype (property : Script.Value) : P _ (Engine.getPrototype h property) := by
  unfold Engine.getPrototype
  cases hprototype : property.propertyName?.bind h.prototype? with
  | none => exact hP.pure _
  | some f =>
    obtain ⟨name, -, hf⟩ := Option.bind_eq_some_iff.1 hprototype
    exact hP.bind (hP.readPrototype hf) fun _ => hP.pure _

theorem hasProperty (property : Script.Value) : P _ (eng.hasProperty h property) := by
  refine hP.bind (hP.look (fun w => ?_) fun w w' hsame => by rw [hsame.data]) fun _ => hP.pure _
  split
  case h_1 | h_2 | h_3 => exact hP.bind (hP.toHost property) fun _ => hP.pure _
  all_goals exact hP.pure _

theorem ownKeys (r : Ref .handler) : P _ (Run.ownKeys r) := by
  refine hP.look (fun w => ?_) fun w w' hsame => by simp only [hsame.handlers, hsame.data]
  split
  case h_5 => exact hP.uniqueKeys r
  case h_1 | h_2 => exact hP.keyTexts hP.exhausted _
  all_goals exact hP.pure _

end Handler.HoldsOfReads

/-- The accessor method that a request may call. -/
def Request.accessor? (h : Handler) : Request → Option Host.Method
  | get property => property.propertyName?.bind h.descriptor.getter?
  | set property _ => property.propertyName?.bind h.descriptor.setter?
  | has _ | delete _ | ownKeys => none

/-- The method that a request may call is exposed. -/
theorem Request.exposes_of_accessor? {h : Handler} {q : Request} {m : Host.Method}
    (hm : q.accessor? h = some m) : h.descriptor.Exposes m := by
  cases q with
  | get property | set property value =>
    obtain ⟨name, -, hm⟩ := Option.bind_eq_some_iff.1 hm
    exact Descriptor.exposes_of_accessor? hm
  | _ => cases hm

namespace Handler.HoldsOfReads

variable {eng : Engine} {h : Handler} {P : ∀ α : Type, Run α → Prop} (hP : h.HoldsOfReads eng P)
  {property : Script.Value}
  (hcall : ∀ m, (Request.get property).accessor? h = some m → P _ (eng.callMethod m h.target []))
include hP hcall

theorem getAccessor : P _ (eng.getAccessor h property) := by
  unfold Engine.getAccessor
  cases hgetter : property.propertyName?.bind h.descriptor.getter? with
  | none => exact hP.pure _
  | some m => exact hP.bind (hP.bind (hcall m hgetter) hP.toScript) fun _ => hP.pure _

/-- What holds of the getter of a property holds of reading it. -/
theorem getProperty : P _ (eng.getProperty h property) := by
  refine hP.bind (hP.firstAnswer fun x hx => ?_) fun _ => hP.pure _
  simp only [List.mem_cons, List.not_mem_nil, or_false] at hx
  rcases hx with rfl | rfl | rfl | rfl | rfl | rfl
  · exact hP.getElement property
  · exact hP.getField property
  · exact hP.getMethod property
  · exact hP.getSymbol property
  · exact hP.getAccessor hcall
  · exact hP.getPrototype property

end Handler.HoldsOfReads

namespace Handler.HoldsOfWrites

variable {eng : Engine} {h : Handler} {P : ∀ α : Type, Run α → Prop} (hP : h.HoldsOfWrites eng P)
include hP

/-- What holds of the setter of a property holds of writing it: a write is offered to elements,
fields and setters in turn. -/
theorem setProperty {property value : Script.Value}
    (hcall : ∀ m, (Request.set property value).accessor? h = some m →
      ∀ v, P _ (eng.callMethod m h.target [v])) : P _ (eng.setProperty h property value) := by
  unfold Engine.setProperty
  cases hname : property.propertyName? with
  | none => exact hP.pure _
  | some name =>
    have haccessor (v : Value) : P _ (eng.setAccessor h name v) := by
      unfold Engine.setAccessor
      split
      · next m hm =>
        have hsetter : (Request.set property value).accessor? h = some m := by
          rw [Request.accessor?, hname, Option.bind_some, hm]
        exact hP.bind (hcall m hsetter v) fun _ => hP.pure _
      · exact hP.pure _
    have hrest (v : Value) (accepted : Bool) :
        P _ (if accepted then Pure.pure true else eng.setAccessor h name v : Run Bool) := by
      split
      · exact hP.pure _
      · exact haccessor v
    refine hP.bind (hP.toHost value) fun v => hP.bind (hP.setElement name v) fun taken => ?_
    split
    · exact hP.pure _
    · dsimp only
      split
      · next entry hentry => exact hP.bind (hP.writeField hentry v) (hrest v)
      · exact hP.bind (hP.pure _) (hrest v)

/-- What holds of the accessor method of a request holds of the request. -/
theorem run (r : Ref .handler) (q : Request)
    (hcall : ∀ m, q.accessor? h = some m → ∀ args, P _ (eng.callMethod m h.target args)) :
    P _ (q.run eng r h) := by
  cases q with
  | get property =>
    exact hP.bind (hP.getProperty fun m hm => hcall m hm []) fun _ => hP.pure _
  | has property => exact hP.bind (hP.hasProperty property) fun _ => hP.pure _
  | set property value =>
    exact hP.bind (hP.setProperty fun m hm v => hcall m hm [v]) fun _ => hP.pure _
  | delete property => exact hP.bind (hP.deleteProperty property) fun _ => hP.pure _
  | ownKeys => exact hP.bind (hP.ownKeys r) fun _ => hP.pure _

end Handler.HoldsOfWrites

namespace Handler.HoldsOfParts

variable {eng : Engine} {h : Handler} {P : ∀ α : Type, Run α → Prop} (hP : h.HoldsOfParts eng P)
include hP

theorem getProperty (property : Script.Value) : P _ (eng.getProperty h property) :=
  hP.toHoldsOfReads.getProperty fun _ hm => hP.callMethod (Request.exposes_of_accessor? hm) []

theorem setProperty (property value : Script.Value) : P _ (eng.setProperty h property value) :=
  hP.toHoldsOfWrites.setProperty fun _ hm v => hP.callMethod (Request.exposes_of_accessor? hm) [v]

/-- What holds of the parts of a handler's answers holds of every request. -/
theorem run (r : Ref .handler) (q : Request) : P _ (q.run eng r h) :=
  hP.toHoldsOfWrites.run r q fun _ hm args => hP.callMethod (Request.exposes_of_accessor? hm) args

end Handler.HoldsOfParts

/-- A relation that the parts of all handlers' answers keep is kept by calls of traps. -/
theorem Engine.within_callTrap {eng : Engine} {R : World → World → Prop} [IsPreorder World R]
    (hparts : ∀ h : Handler, h.HoldsOfParts eng fun _ x => x.Within R)
    (harray : ∀ items, (Run.newScriptArray items).Within R) (r : Ref .handler) (t : Trap)
    (args : List Script.Value) : (eng.callTrap r t args).Within R := by
  refine .bind .get fun w => ?_
  split
  · exact .raise _
  · next h _ =>
    cases t with
    | get => exact (hparts h).getProperty _
    | deleteProperty => exact .bind ((hparts h).deleteProperty _) fun _ => .pure _
    | has => exact .bind ((hparts h).hasProperty _) fun _ => .pure _
    | ownKeys => exact .bind ((hparts h).ownKeys r) fun _ => harray _
    | set => exact .bind ((hparts h).setProperty _ _) fun _ => .pure _

end Membrane
