import Membrane.Dispatch
import Membrane.Proofs.HeldMembers
import Membrane.Proofs.Refusal

/-!
# One set in two hands

Host and script work on one set. Whatever they do with it is an edit of its members: what it is
given is carried to the host, the set is edited, and an answer is given by whether the value was
there. An operation that is given what does not cross, or another number of arguments than it takes,
fails and leaves the set as it was. So whatever is done with the set, in any order, it is what the
history of its edits leaves, and every answer is what the history tells.

## Main definitions

* `Run.Edits`: a computation is an edit of a set.
* `SetVerb`, `SetChange`: the methods of the host and the functions of the script.
* `SetOperation`: what is done with a set, by the host or by a script.
* `SetOperation.outcomes`, `SetOperation.histories`: operations one after the other, and what their
  history tells.
* `Outcome.Follows`: an outcome and the set it leaves are as the history tells.

## Main results

* `SetOperation.follows`: one operation.
* `set_refines_history`: any number of them.
-/

namespace Membrane

open Host (BuiltIn Value)
open Members (Edit Recalls additions)
open Prototype (SetFunction)

variable {eng : Engine} {invoke : Invoke} {h : Handler} {w w₁ : World} {target : Value}
  {members : List Value} {e : Edit Value}

/-- The edit of a set by which its storage is replaced. -/
theorem modify_changeMembers {change : List Value → List Value}
    (hset : w.set? target = some members) :
    (modify (·.changeMembers target change) : Run Unit) w =
      .ok () (w.putData target (.set (change members))) := by
  rw [← World.changeMembers_eq_putData hset]
  rfl

theorem World.putData_set_self (hset : w.set? target = some members) :
    w.putData target (.set members) = w :=
  World.changeData_eq_self (World.set?_eq_some_iff.1 hset) rfl

/-! ### Edits -/

/-- A computation edits a set, once what it is given has crossed, and replies by whether the value
was there. Where there is no edit it fails, and nothing but the crossing has happened. -/
inductive Run.Edits {α : Type} (target : Value) (members : List Value) (w : World) (x : Run α)
    (reply : Bool → Run α) : Option (Edit Value) → Prop
  /-- The set is edited. -/
  | edits {e : Edit Value} {w₁ : World} (hadds : w.AddsObjects w₁)
      (hvalues : ∀ v ∈ e.values, w₁.Knows v)
      (hrun : x w = reply (e.found members) (w₁.putData target (.set (e.apply members)))) :
    Edits target members w x reply (some e)
  /-- There is no edit. -/
  | fails {err : Halt} {w₁ : World} (hadds : w.AddsObjects w₁) (hrun : x w = .error err w₁) :
    Edits target members w x reply none

namespace Run.Edits

variable {α β : Type} {x y : Run α} {reply : Bool → Run α} {e? : Option (Edit Value)}

/-- Crossings may come before. -/
theorem after (hx : Run.Edits target members w₁ x reply e?) (hadds : w.AddsObjects w₁)
    (hrun : y w = x w₁) : Run.Edits target members w y reply e? := by
  cases hx with
  | edits hadds' hvalues hx =>
    exact .edits (IsTrans.trans _ _ _ hadds hadds') hvalues (hrun.trans hx)
  | fails hadds' hx => exact .fails (IsTrans.trans _ _ _ hadds hadds') (hrun.trans hx)

/-- The reply may be carried on. -/
theorem andThen (hx : Run.Edits target members w x reply e?) (f : α → Run β) :
    Run.Edits target members w (x >>= f) (fun there => reply there >>= f) e? := by
  cases hx with
  | edits hadds hvalues hx =>
    refine .edits hadds hvalues ?_
    change EStateM.bind x f w = EStateM.bind (reply _) f _
    unfold EStateM.bind
    rw [hx]
  | fails hadds hx => exact .fails hadds (Run.bind_of_error hx)

end Run.Edits

/-! ### Methods of the host -/

/-- The names of methods by which a set is changed, and values are looked for. -/
inductive SetVerb where
  | add
  | remove
  | contains
  | clear
  deriving DecidableEq

namespace SetVerb

/-- The name of the method. -/
def name : SetVerb → String
  | add => "add"
  | remove => "remove"
  | contains => "contains"
  | clear => "clear"

/-- The operation for a number of arguments. -/
def builtIn? : SetVerb → Nat → Option BuiltIn
  | add, 1 => some .setAdd
  | remove, 1 => some .setRemove
  | contains, 1 => some .setContains
  | clear, 0 => some .setClear
  | _, _ => none

/-- The edit that a call is, if there is an operation for as many arguments. -/
def edit? : SetVerb → List Value → Option (Edit Value)
  | add, [v] => some (.add v)
  | remove, [v] => some (.remove v)
  | contains, [v] => some (.look v)
  | clear, [] => some .clear
  | _, _ => none

/-- What the method gives, by whether the value was there. -/
def answer (there : Bool) : SetVerb → Value
  | add => .boolean !there
  | remove | contains => .boolean there
  | clear => .null

/-- The host calls a method of a set. -/
def run (verb : SetVerb) (hasher : Host.Hasher) (target : Value) (args : List Value) :
    Run Value := do
  let b ← Run.orRaise (verb.builtIn? args.length) (.noOverload verb.name args.length)
  b.run hasher target args

variable {verb : SetVerb} {args : List Value} {hasher : Host.Hasher}

/-- Where a call is no edit, there is no operation. -/
theorem builtIn?_eq_none (h : verb.edit? args = none) : verb.builtIn? args.length = none := by
  cases verb <;> rcases args with _ | ⟨_, _ | ⟨_, _⟩⟩ <;>
    first
      | rfl
      | cases h

/-- A method puts in nothing but its argument. -/
theorem values_subset (h : verb.edit? args = some e) : e.values ⊆ args := by
  unfold edit? at h
  split at h <;> cases h <;> simp [Edit.values]

/-- A method of the host edits the set. -/
theorem run_of_edit? (h : verb.edit? args = some e) (hset : w.set? target = some members) :
    verb.run hasher target args w =
      .ok (verb.answer (e.found members)) (w.putData target (.set (e.apply members))) := by
  have hmembers := Host.setOf_eq_ok hset
  unfold edit? at h
  split at h <;> cases h
  case h_3 v =>
    rw [Edit.apply, World.putData_set_self hset]
    exact Run.bind_of_ok hmembers
  case h_1 | h_2 | h_4 =>
    exact (Run.bind_of_ok hmembers).trans (Run.bind_of_ok (modify_changeMembers hset))

theorem edits (verb : SetVerb) (hasher : Host.Hasher) (hset : w.set? target = some members)
    (hknown : ∀ v ∈ args, w.Knows v) :
    Run.Edits target members w (verb.run hasher target args) (fun there => pure (verb.answer there))
      (verb.edit? args) := by
  cases hedit : verb.edit? args with
  | none =>
    obtain ⟨err, hrun⟩ : ∃ err, verb.run hasher target args w = .error err w := by
      unfold run
      rw [builtIn?_eq_none hedit]
      exact ⟨_, rfl⟩
    exact .fails (refl w) hrun
  | some e =>
    exact .edits (refl w) (fun v hv => hknown v (values_subset hedit hv)) (run_of_edit? hedit hset)

/-- The exposed methods of a name are those of its operations. -/
theorem select?_methods (config : Config) (verb : SetVerb) :
    ∃ g, (Descriptor.build config Host.Library.set false).method? verb.name = some g ∧
      g.name = verb.name ∧
      ∀ n, g.select? n = (verb.builtIn? n).map (Host.Library.method verb.name n) := by
  cases verb <;> refine ⟨_, rfl, rfl, fun n => ?_⟩ <;> match n with
    | 0 | 1 | _ + 2 => rfl

/-- A script calls the method of a name: the arguments are carried to the host, the host's method is
called, and what it gives is carried to the script. -/
theorem callGroup_eq (eng : Engine) (hh : h.ServesSet target) (verb : SetVerb) :
    ∃ g, h.descriptor.method? verb.name = some g ∧ ∀ args, eng.callGroup g h.target args =
      eng.toHostAll args >>= fun vs => verb.run eng.hasher target vs >>= eng.toScript := by
  obtain ⟨config, hd⟩ := hh.descriptor
  obtain ⟨g, hg, hname, hselect⟩ := select?_methods config verb
  rw [← hname] at hselect
  refine ⟨g, hd ▸ hg, fun args => ?_⟩
  rw [eng.callGroup_of_builtIn hselect, hh.target, hname]
  rfl

end SetVerb

/-! ### Functions of the script -/

/-- The functions of the script by which a set is changed, and values are looked for. -/
inductive SetChange where
  | add
  | delete
  | has
  | clear
  deriving DecidableEq

namespace SetChange

/-- What the argument of a call is carried to the host as, if it crosses. -/
def carried? (eng : Engine) (w : World) (args : List Script.Value) : Option Value :=
  (Outcome.result (eng.toHost (Arguments.get args 0) w)).toOption

/-- The function. -/
def function : SetChange → SetFunction
  | add => .add
  | delete => .delete
  | has => .has
  | clear => .clear

/-- The edit that a call is, if the argument it needs crosses. -/
def edit? (eng : Engine) (w : World) (args : List Script.Value) : SetChange → Option (Edit Value)
  | add => (carried? eng w args).map .add
  | delete => (carried? eng w args).map .remove
  | has => (carried? eng w args).map .look
  | clear => some .clear

/-- What the function gives, by whether the value was there. -/
def answer (this : Script.Value) (there : Bool) : SetChange → Script.Value
  | add => this
  | delete | has => .boolean there
  | clear => .undefined

section Edits

variable {this : Script.Value} {args : List Script.Value}

/-- An edit of the value that the argument is carried to the host as. -/
theorem edits_carried {x : Value → Run Script.Value} {reply : Bool → Run Script.Value}
    {edit : Value → Edit Value} (hholds : w.HoldsMembers target members)
    (hvalues : ∀ v, (edit v).values ⊆ [v])
    (hx : ∀ v w₁, w₁.set? target = some members → x v w₁ =
      reply ((edit v).found members) (w₁.putData target (.set ((edit v).apply members)))) :
    Run.Edits target members w (eng.toHost (Arguments.get args 0) >>= x) reply
      ((carried? eng w args).map edit) := by
  unfold carried?
  cases hv : eng.toHost (Arguments.get args 0) w with
  | error err w₁ =>
    exact .fails (addsObjects_of_toHost hv) (Run.bind_of_error hv)
  | ok v w₁ =>
    have hadds : w.AddsObjects w₁ := (eng.within_toHost (Arguments.get args 0)).rel_of_ok hv
    refine .edits hadds (fun u hu => ?_)
      ((Run.bind_of_ok hv).trans (hx v w₁ (hadds.set? hholds.set)))
    obtain rfl : u = v := List.mem_singleton.1 (hvalues v hu)
    exact Engine.knows_of_toHost hholds.targets hv

/-- A function of the script edits the set. -/
theorem edits (change : SetChange) (hholds : w.HoldsMembers target members) :
    Run.Edits target members w (change.function.run eng invoke target this args)
      (fun there => pure (change.answer this there)) (change.edit? eng w args) := by
  cases change with
  | add | delete =>
    exact edits_carried hholds (by simp [Edit.values]) fun v w₁ hset =>
      (Run.bind_of_ok (setMembers_eq_ok_of_set? hset)).trans
        (Run.bind_of_ok (modify_changeMembers hset))
  | has =>
    refine edits_carried hholds (by simp [Edit.values]) fun v w₁ hset => ?_
    rw [Edit.apply, World.putData_set_self hset]
    exact Run.bind_of_ok (setMembers_eq_ok_of_set? hset)
  | clear =>
    exact .edits (refl w) (by simp [Edit.values])
      ((Run.bind_of_ok (setMembers_eq_ok_of_set? hholds.set)).trans
        (Run.bind_of_ok (modify_changeMembers hholds.set)))

end Edits

end SetChange

/-! ### Operations -/

/-- What is done with a set. -/
inductive SetOperation where
  /-- The host calls a method. -/
  | host (verb : SetVerb) (args : List Value)
  /-- A script calls a method of the host. -/
  | method (verb : SetVerb) (args : List Script.Value)
  /-- A script calls a function of its own. -/
  | function (change : SetChange) (this : Script.Value) (args : List Script.Value)
  deriving DecidableEq

namespace SetOperation

/-- The values that come from the host. -/
def hostValues : SetOperation → List Value
  | host _ args => args
  | _ => []

section Operation

variable (eng : Engine) (invoke : Invoke) (h : Handler)

/-- An operation on the target of a handler. -/
def run : SetOperation → Run Returned
  | host verb args => do return .host (← verb.run eng.hasher h.target args)
  | method verb args => do
    let group ← Run.orRaise (h.descriptor.method? verb.name) (.noOverload verb.name args.length)
    return .script (← eng.callGroup group h.target args)
  | function change this args => do
    return .script (← change.function.run eng invoke h.target this args)

/-- The edit that an operation is when it is started in a world, if what it is given crosses. -/
def edit? (w : World) : SetOperation → Option (Edit Value)
  | host verb args => verb.edit? args
  | method verb args => (Outcome.result (eng.toHostAll args w)).toOption.bind verb.edit?
  | function change _ args => change.edit? eng w args

/-- The answer of an operation, by whether the value was there. What a method of the host gives is a
primitive, and a script gets it as the primitive it is carried to. -/
def answer (there : Bool) : SetOperation → Returned
  | host verb _ => .host (verb.answer there)
  | method verb _ => .script ((verb.answer there).scriptPrimitive?.getD .null)
  | function change this _ => .script (change.answer this there)

/-- How the answer is given. -/
def reply (there : Bool) : SetOperation → Run Returned
  | host verb _ => return .host (verb.answer there)
  | method verb _ => do return .script (← eng.toScript (verb.answer there))
  | function change this _ => return .script (change.answer this there)

/-- What a history tells of an operation: the answer, unless it fails, and the history that goes on
with it. -/
def told (w : World) (log : List (Edit Value)) (op : SetOperation) :
    Option Returned × List (Edit Value) :=
  match op.edit? eng w with
  | some e => (some (op.answer (e.recalled log)), e :: log)
  | none => (none, log)

/-- The outcomes of operations one after the other. One that fails does not keep the next from being
started. -/
def outcomes : List SetOperation → World → List (Outcome Returned)
  | [], _ => []
  | op :: rest, w =>
    op.run eng invoke h w :: outcomes rest (Outcome.world (op.run eng invoke h w))

/-- What the history tells of each of the operations. The worlds are those in which the operations
are started, and matter only to what the arguments are carried as. -/
def histories : List SetOperation → World → List (Edit Value) →
    List (Option Returned × List (Edit Value))
  | [], _, _ => []
  | op :: rest, w, log =>
    op.told eng w log ::
      histories rest (Outcome.world (op.run eng invoke h w)) (op.told eng w log).2

/-- Whenever the host gives a value that refers to an object, the object is there. -/
def Known : List SetOperation → World → Prop
  | [], _ => True
  | op :: rest, w =>
    (∀ v ∈ op.hostValues, w.Knows v) ∧ Known rest (Outcome.world (op.run eng invoke h w))

end Operation

/-- An answer is given, unless a script is to get it and the engine refuses to carry it. Nothing
else happens. -/
theorem reply_cases (eng : Engine) (there : Bool) (op : SetOperation) (w : World) :
    op.reply eng there w = .ok (op.answer there) w ∨
      ∃ s v f, op.answer there = .script s ∧ eng.refusesHost w v = some f ∧
        op.reply eng there w = .error (.fault f) w := by
  cases op with
  | host verb args => exact .inl rfl
  | function change this args => exact .inl rfl
  | method verb args =>
    cases hrefuses : eng.refusesHost w (verb.answer there) with
    | none =>
      have hcarry : eng.carryToScript (verb.answer there) w =
          .ok ((verb.answer there).scriptPrimitive?.getD .null) w := by
        cases verb <;> rfl
      exact .inl (Run.bind_of_ok ((Engine.toScript_eq_carryToScript hrefuses).trans hcarry))
    | some f =>
      have hraise : eng.toScript (verb.answer there) w = .error (.fault f) w := by
        unfold Engine.toScript
        rw [Run.get_bind, hrefuses]
        rfl
      exact .inr ⟨_, _, f, rfl, hrefuses, Run.bind_of_error hraise⟩

theorem world_reply (there : Bool) (op : SetOperation) (w : World) :
    Outcome.world (op.reply eng there w) = w := by
  obtain hok | ⟨-, -, f, -, -, herror⟩ := reply_cases eng there op w
  · rw [hok]
    rfl
  · rw [herror]
    rfl

/-- An operation edits the set. -/
theorem edits (op : SetOperation) (hh : h.ServesSet target) (hholds : w.HoldsMembers target members)
    (hknown : ∀ v ∈ op.hostValues, w.Knows v) :
    Run.Edits target members w (op.run eng invoke h) (op.reply eng · ) (op.edit? eng w) := by
  obtain rfl := hh.target
  cases op with
  | host verb args =>
    exact (verb.edits eng.hasher hholds.set hknown).andThen fun v => (pure (.host v) : Run Returned)
  | method verb args =>
    obtain ⟨g, hg, hcall⟩ := verb.callGroup_eq eng hh
    have hrun : (method verb args).run eng invoke h w =
        (eng.toHostAll args >>= fun vs => (verb.run eng.hasher h.target vs >>= eng.toScript) >>=
          fun s => pure (.script s)) w := by
      rw [← bind_assoc, ← hcall]
      simp only [run, hg]
      rfl
    cases hargs : eng.toHostAll args w with
    | error err w₁ =>
      have hedit : (method verb args).edit? eng w = none := by
        simp only [edit?, hargs]
        rfl
      rw [hedit]
      exact .fails (addsObjects_of_toHostAll hargs) (hrun.trans (Run.bind_of_error hargs))
    | ok vs w₁ =>
      have hadds : w.AddsObjects w₁ := (eng.within_toHostAll args).rel_of_ok hargs
      have hedit : (method verb args).edit? eng w = verb.edit? vs := by
        simp only [edit?, hargs]
        rfl
      rw [hedit]
      have hedits := verb.edits eng.hasher (hadds.set? hholds.set)
        (Engine.knows_of_toHostAll hholds.targets hargs)
      exact ((hedits.andThen eng.toScript).andThen fun s => (pure (.script s) : Run Returned)).after
        hadds (hrun.trans (Run.bind_of_ok hargs))
  | function change this args =>
    exact (change.edits hholds).andThen fun s => (pure (.script s) : Run Returned)

end SetOperation

/-! ### Histories -/

/-- An outcome and the set it leaves are as a history tells. -/
structure Outcome.Follows (eng : Engine) (h : Handler) (outcome : Outcome Returned)
    (told : Option Returned × List (Edit Value)) : Prop where
  /-- The answer that is told is given, unless a script is to get it and the engine refuses to carry
  it. -/
  answered : ∀ a, told.1 = some a → (∃ w, outcome = .ok a w) ∨
    ∃ s v f w, a = .script s ∧ eng.refusesHost w v = some f ∧ outcome = .error (.fault f) w
  /-- Where no answer is told, it fails. -/
  fails : told.1 = none → ∃ err w, outcome = .error err w
  /-- The set has the members that the history leaves, of which no two are equal, in the order of
  their addition. In whichever way it is read, it shows these. -/
  leaves : ∃ members, (Outcome.world outcome).HoldsMembers h.target members ∧
    Recalls told.2 members ∧ Members.Distinct members ∧
    (Outcome.world outcome).ShowsMembers eng h members

section Histories

variable {log : List (Edit Value)}

/-- What an operation does is as the history tells that goes on with it. -/
theorem SetOperation.follows (op : SetOperation) (hh : h.ServesSet target)
    (hholds : w.HoldsMembers target members) (hrecalls : Recalls log members)
    (hknown : ∀ v ∈ op.hostValues, w.Knows v) :
    Outcome.Follows eng h (op.run eng invoke h w) (op.told eng w log) := by
  obtain rfl := hh.target
  have hedits : Run.Edits h.target members w (op.run eng invoke h) (op.reply eng ·)
      (op.edit? eng w) := op.edits hh hholds hknown
  unfold told
  cases hedit : op.edit? eng w with
  | none =>
    rw [hedit] at hedits
    cases hedits with
    | fails hadds hrun =>
      rw [hrun]
      have hheld := hholds.addsObjects hadds
      exact ⟨nofun, fun _ => ⟨_, _, rfl⟩,
        _, hheld, hrecalls, hrecalls.distinct, hh.showsMembers eng hheld⟩
  | some e =>
    rw [hedit] at hedits
    cases hedits with
    | edits hadds hvalues hrun =>
      have hheld := (hholds.addsObjects hadds).edit e hvalues
      have hleft := hrecalls.apply e
      rw [hrecalls.found_eq] at hrun
      rw [hrun]
      -- Even where the engine refuses to carry the answer, the set has been edited.
      refine ⟨fun a ha => ?_, nofun, _, ?_, hleft, hleft.distinct, ?_⟩
      · cases ha
        exact (reply_cases eng _ op _).imp (fun hok => ⟨_, hok⟩)
          fun ⟨s, v, f, hs, hrefuses, herror⟩ => ⟨s, v, f, _, hs, hrefuses, herror⟩
      · rw [world_reply]
        exact hheld
      · rw [world_reply]
        exact hh.showsMembers eng hheld

/-- Operations one after the other do what their history tells. -/
theorem SetOperation.forall₂_follows (ops : List SetOperation) (hh : h.ServesSet target)
    (hholds : w.HoldsMembers target members) (hrecalls : Recalls log members)
    (hknown : Known eng invoke h ops w) :
    List.Forall₂ (Outcome.Follows eng h) (outcomes eng invoke h ops w)
      (histories eng invoke h ops w log) := by
  obtain rfl := hh.target
  -- The members that an operation leaves are those that the next one starts with.
  induction ops generalizing w members log with
  | nil => exact .nil
  | cons op ops ih =>
    have hfollows : Outcome.Follows eng h (op.run eng invoke h w) (op.told eng w log) :=
      op.follows hh hholds hrecalls hknown.1
    obtain ⟨members', hholds', hrecalls', -, -⟩ := hfollows.leaves
    exact .cons hfollows (ih hrecalls' hknown.2 hholds')

end Histories

/-- Host and script work on one set, and it is what the history of its edits leaves: whatever
methods the host calls and whatever methods and functions a script calls, in any order and with
any arguments. Its members are the values that were added and not taken out since, no two of them
equal, each as it was added first and in the order of these additions, those there were at the
start coming first. Each operation is answered as the history tells: to add tells the host
whether there was no equal value, to take out and to look for one tell whether there was one.
What fails leaves the set as it was. At the start and after each operation, the number of
members, the keys, if all members have a text, the iterators and the calls of a callback that leaves
everything where it is show the members in their order. All floating-point zeros of one width are
equal, and so are all NaN. All objects that the set, the handlers and the host refer to are there.
-/
theorem set_refines_history (eng : Engine) {h : Handler} {target : Value} (hh : h.ServesSet target)
    {w : World} {members : List Value} (hholds : w.HoldsMembers target members)
    (hdistinct : Members.Distinct members) (invoke : Invoke) (ops : List SetOperation)
    (hknown : SetOperation.Known eng invoke h ops w) :
    (w.ShowsMembers eng h members ∧ Recalls (additions members) members) ∧
    List.Forall₂ (Outcome.Follows eng h) (SetOperation.outcomes eng invoke h ops w)
      (SetOperation.histories eng invoke h ops w (additions members)) ∧
    (∀ x y : Double, Value.double x == .double y ↔
      x.isZero ∧ y.isZero ∨ x.isNaN ∧ y.isNaN ∨ x = y) ∧
    ∀ x y : Single, x.isZero ∧ y.isZero ∨ x.isNaN ∧ y.isNaN → Value.float x == .float y := by
  have hrecalls := Members.recalls_additions hdistinct
  refine ⟨⟨hh.showsMembers eng hholds, hrecalls⟩,
    SetOperation.forall₂_follows ops hh hholds hrecalls hknown,
    fun x y => Host.Value.double_beq_double_iff, fun x y hxy => ?_⟩
  rw [Host.Value.float_beq_float_iff, Host.Value.double_beq_double_iff]
  obtain ⟨hx, hy⟩ | ⟨hx, hy⟩ := hxy
  · exact .inl ⟨Binary.isZero_convert hx, Binary.isZero_convert hy⟩
  · exact .inr (.inl ⟨Binary.isNaN_convert hx, Binary.isNaN_convert hy⟩)

/-- The handler of the set of a world with one set. -/
def onlySetHandler : Handler :=
  ⟨onlyList, .build Config.standard Host.Library.set false, none, none⟩

/-- A script tries to add a NaN, and adds a text. The host takes out an integer, and a script has
the host add it again. The host calls a method with too many arguments. -/
def mixedEdits : List SetOperation :=
  [.function .add .undefined [.double ⟨BitVec.ofNat _ 0x7FF8000000000001⟩],
    .function .add .null [.string "a"], .host .remove [.integer 1], .method .add [.integer 1],
    .host .contains [.integer 1, .null]]

/-- What they give and leave of a set of a NaN and an integer: the text has come before the
integer. -/
theorem set_refines_history_mixed :
    ∃ log, List.Forall₂ (Outcome.Follows (Engine.direct Config.standard) onlySetHandler)
      (SetOperation.outcomes (Engine.direct Config.standard) (fun _ _ _ => pure .null)
        onlySetHandler mixedEdits (World.ofMembers [.double (.nan _), .integer 1]))
      [(some (.script .undefined), log.drop 3), (some (.script .null), log.drop 2),
        (some (.host (.boolean true)), log.drop 1), (some (.script (.boolean true)), log),
        (none, log)] ∧
      ∀ members, Recalls log members →
        members = [.double (.nan _), .string "a", .integer 1] := by
  have hholds : (World.ofMembers [.double (.nan _), .integer 1]).HoldsMembers onlyList
      [.double (.nan _), .integer 1] := ⟨rfl, by simp [World.Knows], fun r h' hr => by cases hr⟩
  have hdistinct : Members.Distinct [Value.double (.nan _), .integer 1] := by
    unfold Members.Distinct
    decide
  obtain ⟨⟨-, hrecalls⟩, hfollows, -⟩ := set_refines_history (Engine.direct Config.standard)
    (h := onlySetHandler) ⟨rfl, Config.standard, rfl⟩ hholds hdistinct (fun _ _ _ => pure .null)
    mixedEdits (by simp [mixedEdits, SetOperation.Known, SetOperation.hostValues, World.Knows])
  let log : List (Edit Value) := [.add (.integer 1), .remove (.integer 1), .add (.string "a"),
    .add (.double ⟨BitVec.ofNat _ 0x7FF8000000000001⟩)] ++
      additions [.double (.nan _), .integer 1]
  refine ⟨log, ?_, fun members hmembers => ?_⟩
  · have hhistories : SetOperation.histories (Engine.direct Config.standard)
        (fun _ _ _ => pure .null) onlySetHandler mixedEdits
        (World.ofMembers [.double (.nan _), .integer 1])
        (additions [.double (.nan _), .integer 1]) =
        [(some (.script .undefined), log.drop 3), (some (.script .null), log.drop 2),
          (some (.host (.boolean true)), log.drop 1), (some (.script (.boolean true)), log),
          (none, log)] := by
      decide
    rwa [hhistories] at hfollows
  · have hleft := (((hrecalls.apply (.add (.double ⟨BitVec.ofNat _ 0x7FF8000000000001⟩))).apply
      (.add (.string "a"))).apply (.remove (.integer 1))).apply (.add (.integer 1))
    rw [hmembers.unique hleft]
    decide

end Membrane
