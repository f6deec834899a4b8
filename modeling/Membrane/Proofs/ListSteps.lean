import Membrane.Dispatch
import Membrane.Proofs.HeldSequence
import Membrane.Proofs.Writing

/-!
# Single steps of a list

The host calls the methods of a list, and a script calls them through a proxy, calls the functions
of script arrays on it, and writes and deletes its items. All of this works on one storage. Each is
a step of a plain sequence: a method or a function with the arguments that have been carried over
takes the step and gives its reply, and one whose step the sequence refuses fails and leaves the
list as it was. A method that is refused an index quotes it in its fault. If it is about to change
the list, it has locked it by then, so it never ends where the text of the index has the list in it.

## Main definitions

* `ListVerb`, `ListVerb.edit?`: the methods of the host, and the steps that calls of them are.
* `ListVerb.Endless`: the calls that never end.
* `ListChange`, `ListChange.edit`: the functions of the script, likewise.

## Main results

* `ListVerb.run_of_apply`, `ListVerb.run_of_refused`: a method of the host.
* `ListVerb.endless_of_self`: a method that is given the list as an index.
* `callGroup_listMethods`: a method of the host that a script calls.
* `ListChange.run_of_apply`, `ListChange.run_of_apply_eq_none`: a function of the script.
* `Engine.setProperty_of_apply`, `Run.deleteProperty_of_apply`: the traps.
-/

namespace Membrane

open Host (BuiltIn Value)
open Prototype (ListFunction)
open Sequence (Edit Reply itemAt? itemAt?_eq_some_iff)

variable {eng : Engine} {w w₁ : World} {target : Value} {xs ys : List Value} {reply : Reply}

/-! ### Methods of the host -/

/-- A reply as a method of the host gives it. -/
def Sequence.Reply.toHost : Reply → Value
  | .item v => v
  | .truth b => .boolean b
  | _ => .null

/-- The names of methods by which a list is changed, and its items are looked at. -/
inductive ListVerb where
  | add
  | get
  | set
  | remove
  | clear
  deriving DecidableEq

namespace ListVerb

/-- The name of the methods. -/
def name : ListVerb → String
  | add => "add"
  | get => "get"
  | set => "set"
  | remove => "remove"
  | clear => "clear"

/-- The operation for a number of arguments. -/
def builtIn? : ListVerb → Nat → Option BuiltIn
  | add, 1 => some .listAdd
  | add, 2 => some .listInsert
  | get, 1 => some .listGet
  | set, 2 => some .listSet
  | remove, 1 => some .listRemove
  | clear, 0 => some .listClear
  | _, _ => none

/-- The step of a sequence that a call is, if there is an operation for as many arguments. -/
def edit? : ListVerb → List Value → Option Edit
  | add, [v] => some (.add v)
  | add, [i, v] => some (.insert i.toIndex? v)
  | get, [i] => some (.get i.toIndex?)
  | set, [i, v] => some (.set i.toIndex? v)
  | remove, [i] => some (.remove i.toIndex?)
  | clear, [] => some .clear
  | _, _ => none

/-- The host calls a method of a list. -/
def run (verb : ListVerb) (hasher : Host.Hasher) (target : Value) (args : List Value) :
    Run Value := do
  let b ← Run.orRaise (verb.builtIn? args.length) (.noOverload verb.name args.length)
  b.run hasher target args

/-- What a method keeps locked: the list, unless it only looks at an item. -/
def locked (target : Value) : ListVerb → List (Ref .object)
  | get => []
  | _ => target.object?.toList

/-- A call never ends if the sequence refuses its index and the index cannot be quoted for want of a
text, or because its text has the locked list in it. -/
def Endless (w : World) (target : Value) (xs : List Value) (verb : ListVerb)
    (args : List Value) : Prop :=
  (∃ edit, verb.edit? args = some edit ∧ edit.apply xs = none) ∧
    ∃ index ∈ args.head?, w.hostText? index (verb.locked target) = none

variable {verb : ListVerb} {args : List Value}

/-- Where a call is no step, there is no operation. -/
theorem builtIn?_eq_none (h : verb.edit? args = none) : verb.builtIn? args.length = none := by
  cases verb <;> rcases args with _ | ⟨_, _ | ⟨_, _ | ⟨_, _⟩⟩⟩ <;>
    first
      | rfl
      | cases h

end ListVerb

section Methods

variable {edit : Edit} {hasher : Host.Hasher}

section Index

variable {locked : List (Ref .object)}

theorem Host.indexBelow_eq_ok {v : Value} {i n : Nat} (hv : v.toIndex? = some i) (hi : i < n) :
    Host.indexBelow v n locked w = .ok i w := by
  simp only [Host.indexBelow, hv, Option.filter_some, decide_eq_true hi, if_true]
  rfl

theorem Host.indexBelow_eq_error (locked : List (Ref .object)) {v : Value} {n : Nat}
    (h : ∀ i, v.toIndex? = some i → n ≤ i) :
    Host.indexBelow v n locked w = .error (w.haltAbout v (.indexOutOfBounds · n) locked) w := by
  have hnone : v.toIndex?.filter (· < n) = none :=
    Option.filter_eq_none_iff.2 fun i hi => by simpa using h i hi
  simp only [Host.indexBelow, hnone]
  rfl

/-- An index that the host gives leads to the item there, or is refused. -/
theorem Host.indexBelow_of_itemAt? {v u : Value} {i : Nat}
    (h : itemAt? xs v.toIndex? = some (i, u)) :
    Host.indexBelow v xs.toArray.size locked w = .ok i w ∧ xs.toArray[i]? = some u := by
  obtain ⟨hv, hu⟩ := itemAt?_eq_some_iff.1 h
  obtain ⟨hi, -⟩ := List.getElem?_eq_some_iff.1 hu
  exact ⟨Host.indexBelow_eq_ok hv (by simpa using hi), by simpa using hu⟩

theorem Host.indexBelow_of_itemAt?_eq_none (locked : List (Ref .object)) {v : Value}
    (h : itemAt? xs v.toIndex? = none) :
    Host.indexBelow v xs.toArray.size locked w =
      .error (w.haltAbout v (.indexOutOfBounds · xs.toArray.size) locked) w := by
  refine Host.indexBelow_eq_error locked fun i hv => ?_
  rw [hv] at h
  simpa [itemAt?] using h

end Index

/-- A method of the host is a step of the sequence that the list holds. -/
theorem ListVerb.run_of_apply {verb : ListVerb} {args : List Value}
    (hedit : verb.edit? args = some edit) (happly : edit.apply xs = some (reply, ys))
    (h : w.HoldsSequence target xs) :
    verb.run hasher target args w = .ok reply.toHost (w.putData target (.list ys.toArray)) := by
  have hlist := h.list
  have hitems := Host.listOf_eq_ok hlist
  unfold ListVerb.edit? at hedit
  split at hedit
  case h_1 v =>
    cases hedit
    cases happly
    have hchange : xs.toArray.push v = (xs ++ [v]).toArray := by simp
    exact (Run.bind_of_ok hitems).trans (Run.bind_of_ok (modify_changeItems hlist hchange))
  case h_2 i v =>
    cases hedit
    obtain ⟨j, hj, hgives⟩ := Option.map_eq_some_iff.1 happly
    cases hgives
    obtain ⟨hi, hle⟩ := Option.filter_eq_some_iff.1 hj
    have hindex : Host.indexToWrite target i (xs.toArray.size + 1) w = .ok j w :=
      Host.indexBelow_eq_ok hi (Nat.lt_succ_of_le (by simpa using hle))
    have hchange : xs.toArray.insertIdxIfInBounds j v = (xs.insertIdx j v).toArray := by simp
    exact (Run.bind_of_ok hitems).trans ((Run.bind_of_ok hindex).trans
      (Run.bind_of_ok (modify_changeItems hlist hchange)))
  case h_3 i =>
    cases hedit
    obtain ⟨⟨j, u⟩, hj, hgives⟩ := Option.map_eq_some_iff.1 happly
    cases hgives
    obtain ⟨hindex, hu⟩ := Host.indexBelow_of_itemAt? (w := w) hj
    rw [h.putData_self]
    refine (Run.bind_of_ok hitems).trans ((Run.bind_of_ok hindex).trans ?_)
    rw [hu]
    rfl
  case h_4 i v =>
    cases hedit
    obtain ⟨⟨j, u⟩, hj, hgives⟩ := Option.map_eq_some_iff.1 happly
    cases hgives
    obtain ⟨hindex, hu⟩ := Host.indexBelow_of_itemAt? (w := w) hj
    have hchange : xs.toArray.setIfInBounds j v = (xs.set j v).toArray := by simp
    refine (Run.bind_of_ok hitems).trans ((Run.bind_of_ok hindex).trans
      ((Run.bind_of_ok (modify_changeItems hlist hchange)).trans ?_))
    rw [hu]
    rfl
  case h_5 i =>
    cases hedit
    obtain ⟨⟨j, u⟩, hj, hgives⟩ := Option.map_eq_some_iff.1 happly
    cases hgives
    obtain ⟨hindex, hu⟩ := Host.indexBelow_of_itemAt? (w := w) hj
    have hchange : xs.toArray.eraseIdxIfInBounds j = (xs.eraseIdx j).toArray := by simp
    refine (Run.bind_of_ok hitems).trans ((Run.bind_of_ok hindex).trans
      ((Run.bind_of_ok (modify_changeItems hlist hchange)).trans ?_))
    rw [hu]
    rfl
  case h_6 =>
    cases hedit
    cases happly
    exact (Run.bind_of_ok hitems).trans (Run.bind_of_ok (modify_changeItems hlist rfl))
  case h_7 => cases hedit

/-- A method that changes a list never ends if it is refused the list itself as an index. -/
theorem ListVerb.endless_of_self {verb : ListVerb} {rest : List Value}
    (hlist : w.list? target = some xs.toArray) (hverb : verb ≠ .get)
    (hedit : verb.edit? (target :: rest) = some edit) (happly : edit.apply xs = none) :
    verb.Endless w target xs (target :: rest) := by
  obtain ⟨r, o, rfl, ho, hdata⟩ := World.exists_object_of_data? (World.list?_eq_some_iff.1 hlist)
  have hcollection : o.data.collection? = some ⟨"(this Collection)", "[", "]", xs.map ([·])⟩ := by
    rw [hdata]
    rfl
  refine ⟨⟨edit, hedit, happly⟩, _, rfl, World.hostText?_of_mem_locked ho hcollection ?_⟩
  cases verb with
  | get => exact absurd rfl hverb
  | _ => exact List.mem_singleton_self r

theorem ListVerb.not_endless_of_apply {verb : ListVerb} {args : List Value}
    (hedit : verb.edit? args = some edit) (happly : edit.apply xs = some (reply, ys)) :
    ¬verb.Endless w target xs args := by
  rintro ⟨⟨edit', hedit', hnone⟩, -⟩
  cases hedit.symm.trans hedit'
  cases happly.symm.trans hnone

/-- A call that is no step, or a step that the sequence refuses, does nothing and gives nothing. It
fails, or never ends. -/
theorem ListVerb.run_of_refused {verb : ListVerb} {args : List Value}
    (h : (verb.edit? args).bind (·.apply xs) = none) (hlist : w.list? target = some xs.toArray) :
    ∃ e, verb.run hasher target args w = .error e w ∧
      (e = .exhausted ↔ verb.Endless w target xs args) := by
  cases hedit : verb.edit? args with
  | none =>
    have hrun : verb.run hasher target args w =
        .error (.fault (.noOverload verb.name args.length)) w := by
      unfold ListVerb.run
      rw [ListVerb.builtIn?_eq_none hedit]
      rfl
    refine ⟨_, hrun, iff_of_false nofun ?_⟩
    rintro ⟨⟨edit, hsome, -⟩, -⟩
    cases hedit.symm.trans hsome
  | some edit =>
    rw [hedit, Option.bind_some] at h
    have hitems := Host.listOf_eq_ok hlist
    -- A refused index is quoted, and that is all that can fail to end.
    have hquoted {index : Value} {rest : List Value} {n : Nat} (hargs : args = index :: rest)
        (hrun : verb.run hasher target args w = .error
          (w.haltAbout index (.indexOutOfBounds · n) (verb.locked target)) w) :
        ∃ e, verb.run hasher target args w = .error e w ∧
          (e = .exhausted ↔ verb.Endless w target xs args) := by
      refine ⟨_, hrun, World.haltAbout_eq_exhausted_iff.trans ⟨fun htext => ?_, ?_⟩⟩
      · exact ⟨⟨edit, hedit, h⟩, index, by simp [hargs], htext⟩
      · rintro ⟨-, index', hindex', htext⟩
        rw [hargs, List.head?_cons] at hindex'
        cases hindex'
        exact htext
    unfold ListVerb.edit? at hedit
    split at hedit
    case h_1 | h_6 =>
      cases hedit
      cases h
    case h_2 index v =>
      cases hedit
      have hindex : Host.indexToWrite target index (xs.toArray.size + 1) w =
          .error (w.haltAbout index (.indexOutOfBounds · (xs.toArray.size + 1))
            target.object?.toList) w := by
        refine Host.indexBelow_eq_error _ fun j hj => ?_
        have hlt := Option.filter_eq_none_iff.1 (Option.map_eq_none_iff.1 h) j hj
        exact Nat.succ_le_of_lt (by simpa using hlt)
      exact hquoted rfl ((Run.bind_of_ok hitems).trans (Run.bind_of_error hindex))
    case h_3 index =>
      cases hedit
      have hindex := Host.indexBelow_of_itemAt?_eq_none (w := w) [] (Option.map_eq_none_iff.1 h)
      exact hquoted rfl ((Run.bind_of_ok hitems).trans (Run.bind_of_error hindex))
    case h_4 | h_5 =>
      cases hedit
      have hindex := Host.indexBelow_of_itemAt?_eq_none (w := w) target.object?.toList
        (Option.map_eq_none_iff.1 h)
      exact hquoted rfl ((Run.bind_of_ok hitems).trans (Run.bind_of_error hindex))
    case h_7 => cases hedit

/-- Methods of the host tell whether it was done, that it was, or which item there was. -/
theorem ListVerb.returns_toHost {verb : ListVerb} {args : List Value}
    (hedit : verb.edit? args = some edit)
    (happly : edit.apply xs = some (reply, ys)) (w : World) :
    w.Returns reply (.host reply.toHost) := by
  unfold ListVerb.edit? at hedit
  split at hedit <;> cases hedit
  case h_1 =>
    cases happly
    exact .hostTruth true
  case h_2 =>
    obtain ⟨j, -, hgives⟩ := Option.map_eq_some_iff.1 happly
    cases hgives
    exact .hostDone
  case h_3 | h_4 | h_5 =>
    obtain ⟨p, -, hgives⟩ := Option.map_eq_some_iff.1 happly
    cases hgives
    exact .hostItem p.2
  case h_6 =>
    cases happly
    exact .hostDone

/-- A method puts in nothing but its arguments. -/
theorem ListVerb.values_subset {verb : ListVerb} {args : List Value}
    (hedit : verb.edit? args = some edit) : edit.values ⊆ args := by
  unfold ListVerb.edit? at hedit
  split at hedit <;> cases hedit <;> simp [Edit.values]

/-- What the host gives as a reply is carried to a script as the reply is given to it. -/
theorem Engine.toScript_toHost (hopen : eng.Open) (h : w.Returns reply (.host reply.toHost)) :
    eng.toScript reply.toHost w = eng.give .null reply w := by
  cases reply with
  | item v => rfl
  | done =>
    rw [toScript_eq_carryToScript (hopen.toScript w _)]
    rfl
  | truth b =>
    rw [toScript_eq_carryToScript (hopen.toScript w _)]
    rfl
  | _ => cases h

/-- The exposed methods of a name are those of its operations. -/
theorem select?_listMethods (config : Config) (verb : ListVerb) :
    ∃ g, (Descriptor.build config Host.Library.list false).method? verb.name = some g ∧
      g.name = verb.name ∧
      ∀ n, g.select? n = (verb.builtIn? n).map (Host.Library.method verb.name n) := by
  cases verb <;> refine ⟨_, rfl, rfl, fun n => ?_⟩ <;> match n with
    | 0 | 1 | 2 | _ + 3 => rfl

/-- A script calls the methods of a name: the arguments are carried to the host, the host's method
is called, and what it gives is carried to the script. -/
theorem callGroup_listMethods (eng : Engine) {h : Handler} (hh : h.ServesList target)
    (verb : ListVerb) :
    ∃ g, h.descriptor.method? verb.name = some g ∧ ∀ args, eng.callGroup g h.target args =
      eng.toHostAll args >>= fun vs => verb.run eng.hasher target vs >>= eng.toScript := by
  obtain ⟨config, hd⟩ := hh.descriptor
  obtain ⟨g, hg, hname, hselect⟩ := select?_listMethods config verb
  rw [← hname] at hselect
  refine ⟨g, hd ▸ hg, fun args => ?_⟩
  rw [eng.callGroup_of_builtIn hselect, hh.target, hname]
  rfl

end Methods

/-! ### Functions of the script -/

/-- The functions of the script that change a list without calling back. -/
inductive ListChange where
  | pop
  | push
  | reverse
  | shift
  | splice
  | unshift
  deriving DecidableEq

namespace ListChange

/-- The function. -/
def function : ListChange → ListFunction
  | pop => .pop
  | push => .push
  | reverse => .reverse
  | shift => .shift
  | splice => .splice
  | unshift => .unshift

/-- The arguments that go into the list. -/
def inserts (args : List Script.Value) : ListChange → List Script.Value
  | push | unshift => args
  | splice => args.drop 2
  | _ => []

/-- The step of a sequence that a call is, given what goes into the list. The start and the number
of items of a splice are read as numbers of 32 bits. -/
def edit (args : List Script.Value) (vs : List Value) : ListChange → Edit
  | pop => .pop
  | push => .push vs
  | reverse => .reverse
  | shift => .shift
  | splice =>
    .splice (if args.isEmpty then none else some (Arguments.int args 0 0).toInt)
      (args[1]?.map (·.toInt32.toInt)) vs
  | unshift => .unshift vs

end ListChange

section Changes

variable {change : ListChange} {invoke : Invoke} {steps : Nat} {this : Script.Value}
  {args : List Script.Value} {vs : List Value}

theorem Sequence.spliceStart_eq (args : List Script.Value) (length : Nat) :
    Sequence.spliceStart args length = Sequence.position (Arguments.int args 0 0).toInt length := by
  unfold Sequence.spliceStart Sequence.position
  dsimp only
  split <;> omega

/-- No more than all items are taken out, and all of them are if no number is given. -/
theorem Sequence.spliceCount_eq (args : List Script.Value) {length remaining : Nat}
    (h : remaining ≤ length) : Sequence.spliceCount args remaining =
      min ((args[1]?.map (·.toInt32.toInt)).elim length Int.toNat) remaining := by
  unfold Sequence.spliceCount
  cases args[1]? with
  | none => exact (Nat.min_eq_right h).symm
  | some v => rfl

/-- A splice is the step of the plain sequence. -/
theorem Sequence.splice?_eq (xs : List Value) (args : List Script.Value) (vs : List Value) :
    (ListChange.splice.edit args vs).apply xs = none ∧
        (∃ f, Sequence.splice? xs args vs = .error f) ∨
      ∃ removed left, (ListChange.splice.edit args vs).apply xs = some (.items removed, left) ∧
        Sequence.splice? xs args vs = .ok (removed, left) := by
  unfold ListChange.edit Sequence.splice?
  rw [Sequence.spliceStart_eq]
  by_cases hargs : args.isEmpty = true
  · simp only [hargs, if_true, Edit.apply]
    exact .inr ⟨_, _, rfl, rfl⟩
  · have hstart : (if args.isEmpty then none else some (Arguments.int args 0 0).toInt) =
        some (Arguments.int args 0 0).toInt := if_neg hargs
    simp only [hstart, Edit.apply, if_neg hargs]
    generalize Sequence.position (Arguments.int args 0 0).toInt xs.length = i
    by_cases hi : i < xs.length
    · have hlt : ¬(xs.length : Int) ≤ i := by omega
      rw [if_pos hi, if_neg hlt, Int.toNat_natCast,
        Sequence.spliceCount_eq args (Nat.sub_le xs.length i)]
      generalize (args[1]?.map (·.toInt32.toInt)).elim xs.length Int.toNat = n
      have hrest : (xs.drop i).length = xs.length - i := List.length_drop
      refine .inr ⟨_, _, rfl, ?_⟩
      rw [← List.drop_drop, ← hrest, ← List.take_eq_take_min, ← List.drop_eq_drop_min]
    · have hle : (xs.length : Int) ≤ i := by omega
      rw [if_neg hi, if_pos hle]
      exact .inl ⟨rfl, _, rfl⟩

/-- A function puts in nothing but what it was given for it. -/
theorem ListChange.values_subset (change : ListChange) (args : List Script.Value)
    (vs : List Value) : (change.edit args vs).values ⊆ vs := by
  cases change <;> simp [ListChange.edit, Edit.values]

/-- A function that is given what does not cross fails and does nothing else. -/
theorem ListChange.run_of_refused {e : Halt}
    (hargs : eng.toHostAll (change.inserts args) w = .error e w₁) :
    change.function.run eng invoke steps target this args w = .error e w₁ := by
  cases change with
  | push | unshift | splice => exact Run.bind_of_error hargs
  | _ => cases hargs

/-- A function of the script is a step of the sequence that the list holds, and gives the reply of
that step. -/
theorem ListChange.run_of_apply (hargs : eng.toHostAll (change.inserts args) w = .ok vs w₁)
    (happly : (change.edit args vs).apply xs = some (reply, ys))
    (hlist : w₁.list? target = some xs.toArray) :
    change.function.run eng invoke steps target this args w =
      eng.give this reply (w₁.putData target (.list ys.toArray)) := by
  have hitems := listItems_eq_ok_of_list? hlist
  have hvalues := listValues_eq_ok hlist
  cases change with
  | pop =>
    cases hargs
    cases happly
    have hchange : xs.toArray.pop = xs.dropLast.toArray := by simp
    refine (Run.bind_of_ok hitems).trans
      ((Run.bind_of_ok (modify_changeItems hlist hchange)).trans ?_)
    rw [List.back?_toArray]
    cases xs.getLast? <;> rfl
  | push =>
    cases happly
    have hchange : xs.toArray ++ vs = (xs ++ vs).toArray := by simp
    refine (Run.bind_of_ok hargs).trans ((Run.bind_of_ok hitems).trans
      ((Run.bind_of_ok (modify_changeItems hlist hchange)).trans ?_))
    simp only [Engine.give, List.length_append, List.size_toArray]
  | reverse =>
    cases hargs
    cases happly
    exact (Run.bind_of_ok hvalues).trans (Run.bind_of_ok (putItems_apply target _ w))
  | shift =>
    cases hargs
    cases happly
    have hchange : xs.toArray.eraseIdxIfInBounds 0 = xs.tail.toArray := by simp
    refine (Run.bind_of_ok hitems).trans
      ((Run.bind_of_ok (modify_changeItems hlist hchange)).trans ?_)
    rw [List.getElem?_toArray, ← List.head?_eq_getElem?]
    cases xs.head? <;> rfl
  | splice =>
    obtain ⟨hrefused, -⟩ | ⟨removed, left, hstep, hsplice⟩ := Sequence.splice?_eq xs args vs
    · cases hrefused.symm.trans happly
    · cases hstep.symm.trans happly
      refine (Run.bind_of_ok hargs).trans ((Run.bind_of_ok hvalues).trans ?_)
      rw [hsplice]
      exact Run.bind_of_ok (putItems_apply target _ w₁)
  | unshift =>
    cases happly
    have hchange : vs.toArray ++ xs.toArray = (vs ++ xs).toArray := by simp
    refine (Run.bind_of_ok hargs).trans ((Run.bind_of_ok hitems).trans
      ((Run.bind_of_ok (modify_changeItems hlist hchange)).trans ?_))
    simp only [Engine.give, List.length_append, List.size_toArray]

/-- A function whose step the sequence refuses fails and leaves the list as it was. -/
theorem ListChange.run_of_apply_eq_none
    (hargs : eng.toHostAll (change.inserts args) w = .ok vs w₁)
    (happly : (change.edit args vs).apply xs = none)
    (hlist : w₁.list? target = some xs.toArray) :
    ∃ f, change.function.run eng invoke steps target this args w = .error (.fault f) w₁ := by
  cases change with
  | splice =>
    obtain ⟨-, f, hsplice⟩ | ⟨removed, left, hstep, -⟩ := Sequence.splice?_eq xs args vs
    · refine ⟨f, (Run.bind_of_ok hargs).trans
        ((Run.bind_of_ok (listValues_eq_ok hlist)).trans ?_)⟩
      rw [hsplice]
      rfl
    · cases hstep.symm.trans happly
  | _ => cases happly

end Changes

/-! ### Traps -/

section Traps

/-- A change of an item of a list is made where the name is the index of one. -/
theorem World.answerChange_itemAt? (hlist : w.list? target = some xs.toArray) (name : String)
    (change : Nat → Array Value → Array Value) (left : Nat → List Value)
    (hchange : ∀ i, change i xs.toArray = (left i).toArray) :
    w.answerChange target (Host.Data.itemChange? xs.toArray name change) =
      (itemAt? xs (indexKey? name)).elim (.ok false w) fun at_ =>
        .ok true (w.putData target (.list (left at_.1).toArray)) := by
  unfold Host.Data.itemChange? itemAt?
  cases indexKey? name with
  | none => rfl
  | some i =>
    simp only [Option.bind_some, List.size_toArray]
    by_cases hi : i < xs.length
    · rw [if_pos hi, List.getElem?_eq_getElem hi]
      refine congrArg (EStateM.Result.ok true) ?_
      rw [← hchange]
      exact World.changeItems_eq_putData hlist (change i)
    · rw [if_neg hi, List.getElem?_eq_none (Nat.le_of_not_lt hi)]
      rfl

/-- To delete a property of a list is to take out the item whose index it names. -/
theorem Run.deleteProperty_of_apply {property : Script.Value} (h : w.HoldsSequence target xs)
    (happly : (Edit.erase (property.propertyName?.bind indexKey?)).apply xs = some (reply, ys)) :
    ∃ b, reply = .truth b ∧
      Run.deleteProperty target property w = .ok b (w.putData target (.list ys.toArray)) := by
  have hdata := World.list?_eq_some_iff.1 h.list
  rw [Run.deleteProperty_eq]
  cases hname : property.propertyName? with
  | none =>
    rw [hname] at happly
    cases happly
    exact ⟨false, rfl, by rw [h.putData_self]; rfl⟩
  | some name =>
    have hremoval : w.elementRemoval? target name =
        Host.Data.itemChange? xs.toArray name fun i => (·.eraseIdxIfInBounds i) := by
      unfold World.elementRemoval?
      rw [hdata]
      rfl
    rw [Option.bind_some, hremoval,
      World.answerChange_itemAt? h.list name _ xs.eraseIdx fun i => by simp]
    rw [hname, Option.bind_some] at happly
    cases hat : itemAt? xs (indexKey? name) <;> simp only [Edit.apply, hat] at happly <;>
      cases happly
    · exact ⟨false, rfl, by rw [h.putData_self]; rfl⟩
    · exact ⟨true, rfl, rfl⟩

/-- To search a list is always answered. -/
theorem Host.listIndexOf_eq_ok {hasher : Host.Hasher}
    (hlist : w.list? target = some xs.toArray) (v : Value) :
    ∃ u, BuiltIn.listIndexOf.run hasher target [v] w = .ok u w := by
  simp only [BuiltIn.run]
  rw [Run.bind_of_ok (Host.listOf_eq_ok hlist)]
  generalize xs.toArray.findIdx? (· == Host.argument [v] 0) = found
  cases found <;> exact ⟨_, rfl⟩

/-- To write a property of a list is to put a value in the place of the item whose index it names.
Where it names none, the answer is whether there is a setter. -/
theorem Engine.setProperty_of_apply {h : Handler} (hh : h.ServesList target)
    {property value : Script.Value} {name : String} {v : Value}
    (hname : property.propertyName? = some name) (hvalue : eng.toHost value w = .ok v w₁)
    (hholds : w₁.HoldsSequence target xs)
    (happly : (Edit.write (indexKey? name) v (h.descriptor.setter? name).isSome).apply xs =
      some (reply, ys)) :
    ∃ b, reply = .truth b ∧
      eng.setProperty h property value w = .ok b (w₁.putData target (.list ys.toArray)) := by
  have hdata := World.list?_eq_some_iff.1 hholds.list
  have hwrite : w₁.elementWrite? target name v =
      Host.Data.itemChange? xs.toArray name fun i => (·.setIfInBounds i v) := by
    unfold World.elementWrite?
    rw [hdata]
    rfl
  have helement : Run.setElement h.target name v w₁ =
      (itemAt? xs (indexKey? name)).elim (.ok false w₁) fun at_ =>
        .ok true (w₁.putData target (.list (xs.set at_.1 v).toArray)) := by
    rw [Run.setElement_eq, hh.target, hwrite]
    exact World.answerChange_itemAt? hholds.list name _ (xs.set · v) fun i => by simp
  have hrun : eng.setProperty h property value w = eng.setNamed h name v w₁ := by
    simp only [setProperty, hname]
    exact Run.bind_of_ok hvalue
  rw [hrun]
  cases hat : itemAt? xs (indexKey? name) with
  | some p =>
    simp only [Edit.apply, hat] at happly
    cases happly
    rw [hat] at helement
    exact ⟨true, rfl, Run.bind_of_ok helement⟩
  | none =>
    simp only [Edit.apply, hat] at happly
    cases happly
    rw [hat] at helement
    refine ⟨_, rfl, (setNamed_of_declines ⟨helement, fun entry hentry => ?_⟩).trans ?_⟩
    · rw [hh.field?_eq_none] at hentry
      cases hentry
    · rw [hholds.putData_self]
      unfold setAccessor
      cases hsetter : h.descriptor.setter? name with
      | none => rfl
      | some m =>
        -- The only setter there may be searches the list.
        have hcall : ∃ u, eng.callMethod m h.target [v] w₁ = .ok u w₁ := by
          unfold callMethod
          rw [hh.body_of_setter? hsetter, hh.target]
          exact Host.listIndexOf_eq_ok hholds.list v
        obtain ⟨u, hu⟩ := hcall
        exact Run.bind_of_ok hu

end Traps

end Membrane
