import Membrane.Proofs.Suiting

/-!
# Functions stay with what they are for

The embedder makes objects of any class, proxies and functions, and lets go of them, the host runs
its methods, and the script calls traps and callables: all in any order, and whether or not a step
fails. Each of these keeps a world sound. So an object keeps the kind of storage that it was made
with, which is the one its class calls for, and a function of lists or sets that a proxy gave finds
the storage it is for whenever it is called later.

## Main definitions

* `Event`, `Event.after`: what can happen, and the world that it leaves.
* `Event.runAll`: one thing after the other.

## Main results

* `Event.continues_after`, `Event.continues_runAll`: one event, and any number of them.
* `functions_suit_targets`: functions that were given out, after any number of events.
-/

namespace Membrane

open Host (Component Value)

/-- Something that can happen. -/
inductive Event where
  /-- The embedder makes an instance of a class. -/
  | new (c : Host.Class)
  /-- It makes a list. -/
  | list (items : List Value)
  /-- It makes a set. -/
  | set (values : List Value)
  /-- It makes a map. -/
  | map (entries : List (Value × Value))
  /-- It makes an array. -/
  | array (c : Component) (items : List Value)
  /-- It makes a reference to a class. -/
  | classRef (c : Host.Class)
  /-- It makes a proxy. -/
  | proxy (target : Value)
  /-- It makes the object of callables that stands for the handler of a proxy. -/
  | handlerObject (r : Ref .handler)
  /-- It makes a native function. -/
  | native (name : String) (code : Nat) (captured : List Script.Value)
  /-- It makes a script array. -/
  | scriptArray (items : List Script.Value)
  /-- It makes a plain script object. -/
  | record (properties : List (Script.Key × Script.Value))
  /-- It holds these things from now on, and lets go of all others. -/
  | hold (nodes : List Node)
  /-- The host runs a method. -/
  | method (m : Host.Method) (receiver : Value) (args : List Value)
  /-- The script calls a trap. -/
  | trap (r : Ref .handler) (t : Trap) (args : List Script.Value)
  /-- The script calls a value. -/
  | call (depth : Nat) (callee this : Script.Value) (args : List Script.Value)

namespace Event

/-- The world that an event leaves, whether it succeeds or fails. -/
def after (eng : Engine) (w : World) : Event → World
  | new c => Outcome.world (Run.newObject (.new c (.empty c.shape)) w)
  | list items => Outcome.world (Run.newList items w)
  | set values => Outcome.world (Run.newSet values w)
  | map entries => Outcome.world (Run.newMap entries w)
  | array c items => Outcome.world (Run.newArray c items w)
  | classRef c => Outcome.world (Run.newClassRef c w)
  | proxy target => Outcome.world (eng.newHandler target w)
  | handlerObject r => Outcome.world (Run.handlerObject r w)
  | native name code captured => Outcome.world (Run.newFunction (.native name code captured) w)
  | scriptArray items => Outcome.world (Run.newScriptArray items w)
  | record properties => Outcome.world (Run.newRecord properties w)
  | hold nodes => { w with held := nodes }
  | method m receiver args => Outcome.world (eng.callMethod m receiver args w)
  | trap r t args => Outcome.world (eng.callTrap r t args w)
  | call depth callee this args => Outcome.world (eng.call depth callee this args w)

/-- The world that events leave, one after the other. -/
def runAll (eng : Engine) (events : List Event) (w : World) : World :=
  events.foldl (fun w e => e.after eng w) w

variable {eng : Engine} {Q : Fault → Prop} {w : World}

/-- A sound world stays sound whatever happens. -/
theorem continues_after (hb : eng.Behaves Q) (hQ : ∀ f : Fault, ¬f.IsMisplaced → Q f)
    (hw : w.Sound eng.config) (e : Event) : w.Continues eng.config (e.after eng w) := by
  cases e with
  | new c => exact Run.continues_newObject (Host.Object.isApt_new c) w
  | list items => exact Run.continues_newList items w
  | set values => exact Run.continues_newSet values w
  | map entries => exact Run.continues_newMap entries w
  | array c items => exact Run.continues_newArray c items w
  | classRef c => exact Run.continues_newClassRef c w
  | proxy target => exact (Engine.Behaves.newHandler hQ eng target).within w hw
  | handlerObject r =>
    exact Run.Within.bind (Run.continues_trapFunctions r) (fun _ => Run.continues_newRecord _) w
  | native name code captured => exact Run.continues_newFunction rfl w
  | scriptArray items => exact Run.continues_newScriptArray items w
  | record properties => exact Run.continues_newRecord properties w
  | hold nodes => exact .of_eq rfl rfl rfl rfl
  | method m receiver args => exact (hb.callMethod hQ m receiver args).within w hw
  | trap r t args => exact (hb.callTrap hQ r t args).within w hw
  | call depth callee this args => exact (hb.call hQ depth callee this args).within w hw

/-- It stays sound however much happens. -/
theorem continues_runAll (hb : eng.Behaves Q) (hQ : ∀ f : Fault, ¬f.IsMisplaced → Q f)
    (hw : w.Sound eng.config) (events : List Event) :
    w.Continues eng.config (runAll eng events w) := by
  induction events generalizing w with
  | nil => exact refl w
  | cons e events ih =>
    have hfirst := continues_after hb hQ hw e
    exact IsTrans.trans _ _ _ hfirst (ih (hfirst.sound hw))

end Event

/-- Functions find the storage they are for. Start from a sound world, such as one without anything
in it, and let anything happen, then more. All objects have the kind of storage their class calls
for, and each of the earlier objects has kept its own. No trap raises the fault of a target that is
no list or no set, unless the embedder's code raises such faults itself. If in between a `get` trap
gave a function of lists or sets, that function is still for the same target afterwards, which has
the storage the function is for, and no call of it raises such a fault either, whatever the receiver
and the arguments. -/
theorem functions_suit_targets {eng : Engine} {own : Fault → Prop}
    (hb : eng.Behaves fun f => f.IsMisplaced → own f) {w : World} (hw : w.Sound eng.config)
    (first later : List Event) :
    let w₁ := Event.runAll eng first w
    (Event.runAll eng later w₁).Sound eng.config ∧ w₁.KeepsKinds (Event.runAll eng later w₁) ∧
    (∀ r t args e w₂,
      eng.callTrap r t args w₁ = .error (.fault e) w₂ → e.IsMisplaced → own e) ∧
    ∀ r args g w₂ f target,
      eng.callTrap r .get args w₁ = .ok (.function g) w₂ →
      w₂.functions.get? g = some (.prototype f target) →
      let w₃ := Event.runAll eng later w₂
      w₃.functions.get? g = some (.prototype f target) ∧ f.Suits w₃ target ∧
      ∀ depth this args e w₄,
        eng.call depth (.function g) this args w₃ = .error (.fault e) w₄ →
          e.IsMisplaced → own e := by
  intro w₁
  have hQ (f : Fault) (hf : ¬f.IsMisplaced) : f.IsMisplaced → own f := fun h => absurd h hf
  have hw₁ : w₁.Sound eng.config := (Event.continues_runAll hb hQ hw first).sound hw
  have hlater := Event.continues_runAll hb hQ hw₁ later
  refine ⟨hlater.sound hw₁, hlater.kinds, fun r t args => (hb.callTrap hQ r t args).fault w₁ hw₁,
    fun r args g w₂ f target hget hg => ?_⟩
  have hw₂ : w₂.Sound eng.config := by
    have hgiven := (hb.callTrap hQ r .get args).within w₁ hw₁
    rw [hget] at hgiven
    exact hgiven.sound hw₁
  intro w₃
  have hcontinues : w₂.Continues eng.config w₃ := Event.continues_runAll hb hQ hw₂ later
  have hw₃ : w₃.Sound eng.config := hcontinues.sound hw₂
  have hkept := hcontinues.functions g _ hg
  exact ⟨hkept, hw₃.functions g _ hkept f target rfl, fun depth this args =>
    (hb.call hQ depth (.function g) this args).fault w₃ hw₃⟩

/-- A class of sets that extends the class of lists. -/
def setOfLists : Host.Class :=
  .extending ⟨Host.Library.firstSerial, "SetOfLists", some .set, none, none, [], []⟩
    Host.Library.list

/-- An instance of a class of sets that extends the class of lists gives the function `has` of sets,
and it can still be called after it was called on another receiver and the handler was let go. -/
theorem functions_suit_targets_setOfLists :
    let eng := Engine.direct Config.standard
    let w₁ := Event.runAll eng
      [.new setOfLists, .proxy (.object ⟨0⟩), .hold [(⟨0⟩ : Ref .handler).node]] {}
    ∃ w₂, eng.callTrap ⟨0⟩ .get [.undefined, .string "has"] w₁ = .ok (.function ⟨0⟩) w₂ ∧
      let w₃ := Event.runAll eng [.call 1 (.function ⟨0⟩) .null [.integer 1], .hold []] w₂
      w₃.functions.get? ⟨0⟩ = some (.prototype (.ofSet .has) (.object ⟨0⟩)) ∧
      ∀ depth this args e w₄, eng.call depth (.function ⟨0⟩) this args w₃ = .error (.fault e) w₄ →
        ¬e.IsMisplaced := by
  obtain ⟨hkept, -, hcalls⟩ := (functions_suit_targets
    (Engine.behaves_direct Config.standard fun f => f.IsMisplaced → False)
    (World.sound_empty Config.standard)
    [.new setOfLists, .proxy (.object ⟨0⟩), .hold [(⟨0⟩ : Ref .handler).node]]
    [.call 1 (.function ⟨0⟩) .null [.integer 1], .hold []]).2.2.2 ⟨0⟩
      [.undefined, .string "has"] ⟨0⟩ _ (.ofSet .has) (.object ⟨0⟩) rfl rfl
  exact ⟨_, rfl, hkept, hcalls⟩

end Membrane
