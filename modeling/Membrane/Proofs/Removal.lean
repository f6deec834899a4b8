import Membrane.Proofs.Crossing
import Membrane.Proofs.Items

/-!
# Elements taken out of a list

Three list functions take elements out and hand them to the script: one takes the last element, one
the first, one a range in whose place it puts others. All three go the same way. Arguments are
carried to the host, the items are divided, the list is changed, and only then the removed elements
are carried to the script. What fails before the change leaves the list as it was; if a removed
element is refused, the list has lost all of them.

## Main definitions

* `Prototype.ListFunction.takesOut`, `Prototype.ListFunction.inserts`,
  `Prototype.ListFunction.divide`, `Prototype.ListFunction.handOver`: what the three have in common.
* `Division`: what such a function takes out and what it leaves when it is started in a world.

## Main results

* `Division.run_eq`: the list is changed before the removed elements cross.
* `fails_before_or_loses`: what is left of the list however such a function ends.
-/

namespace Membrane

open Host (Value)
open Prototype (ListFunction)

namespace Prototype.ListFunction

/-- The list functions that take elements out and hand them to the script. -/
def takesOut : ListFunction → Bool
  | .pop | .shift | .splice => true
  | _ => false

/-- The arguments that a function puts into the list. -/
def inserts (f : ListFunction) (args : List Script.Value) : List Script.Value :=
  match f with
  | .splice => args.drop 2
  | _ => []

/-- The items that a function takes out, and what it leaves. -/
def divide (f : ListFunction) (items : List Value) (args : List Script.Value)
    (inserted : List Value) : Except Fault (List Value × List Value) :=
  match f with
  | .pop => .ok (items.getLast?.toList, items.dropLast ++ inserted)
  | .shift => .ok (items.head?.toList, inserted ++ items.tail)
  | _ => Sequence.splice? items args inserted

/-- How a function hands over what it has taken out: a range as an array, and a single element, or
undefined for none, as it is. -/
def handOver (f : ListFunction) (removed : List Script.Value) : Run Script.Value :=
  match f with
  | .splice => Run.newScriptArray removed
  | _ => return removed.head?.getD .undefined

end Prototype.ListFunction

variable {eng : Engine} {invoke : Invoke} {steps : Nat} {target : Value} {this : Script.Value}
  {args : List Script.Value} {f : ListFunction} {items inserted removed left : List Value}
  {w w₁ : World}

/-- Started in a world, a function carries the values it inserts to the host, which leads to another
world, and divides the items into those it removes and what it leaves. -/
structure Division (eng : Engine) (f : ListFunction) (args : List Script.Value)
    (items : List Value) (w : World) (inserted removed left : List Value) (w₁ : World) : Prop where
  /-- The arguments cross. -/
  inserted_eq : eng.toHostAll (f.inserts args) w = .ok inserted w₁
  /-- The items are divided. -/
  divide_eq : f.divide items args inserted = .ok (removed, left)

/-! ### The items -/

/-- As many values come across as are sent. -/
theorem length_of_mapM {α β : Type} {g : α → Run β} : ∀ {l : List α} {l' : List β} {w w' : World},
    l.mapM g w = .ok l' w' → l'.length = l.length
  | [], l', w, w', h => by
    rw [List.mapM_nil] at h
    cases h
    rfl
  | a :: l, l', w, w', h => by
    rw [List.mapM_cons] at h
    obtain ⟨b, w₁, -, h⟩ := Run.bind_eq_ok h
    obtain ⟨bs, w₂, hbs, h⟩ := Run.bind_eq_ok h
    cases h
    simp [length_of_mapM hbs]

/-- What is left has the inserted elements in place of the removed ones. -/
theorem Division.split (h : Division eng f args items w inserted removed left w₁)
    (hf : f.takesOut = true) :
    ∃ before after, items = before ++ removed ++ after ∧ left = before ++ inserted ++ after := by
  have hlength := length_of_mapM h.inserted_eq
  have hdivide := h.divide_eq
  cases f with
  | pop =>
    obtain rfl : inserted = [] := List.length_eq_zero_iff.1 hlength
    cases hdivide
    refine ⟨items.dropLast, [], ?_, by simp⟩
    obtain rfl | ⟨init, last, rfl⟩ := List.eq_nil_or_concat items <;> simp
  | shift =>
    obtain rfl : inserted = [] := List.length_eq_zero_iff.1 hlength
    cases hdivide
    refine ⟨[], items.tail, ?_, by simp⟩
    cases items <;> simp
  | splice =>
    simp only [ListFunction.divide, Sequence.splice?] at hdivide
    split at hdivide
    · next hargs =>
      obtain rfl := List.isEmpty_iff.1 hargs
      obtain rfl : inserted = [] := List.length_eq_zero_iff.1 hlength
      cases hdivide
      exact ⟨[], items, by simp, by simp⟩
    · split at hdivide
      · cases hdivide
      · cases hdivide
        refine ⟨_, _, ?_, rfl⟩
        rw [List.append_assoc, ← List.drop_drop, List.take_append_drop, List.take_append_drop]
  | _ => cases hf

/-! ### The run -/

/-- A single element crosses as it does in a list of one. -/
theorem toScript_eq_handOver (hf : ∀ ss, f.handOver ss = return ss.head?.getD .undefined)
    (last : Option Value) :
    (match last with
      | some v => eng.toScript v
      | none => return .undefined) = eng.toScriptAll last.toList >>= f.handOver := by
  cases last <;> simp [Engine.toScriptAll, hf]

/-- The list is changed before the removed elements are carried to the script. -/
theorem Division.run_eq (h : Division eng f args items w inserted removed left w₁)
    (hf : f.takesOut = true) (hlist : w.list? target = some items.toArray) :
    f.run eng invoke steps target this args w =
      (eng.toScriptAll removed >>= f.handOver) (w₁.putData target (.list left.toArray)) := by
  have hadds := eng.within_toHostAll (f.inserts args) w
  rw [h.inserted_eq] at hadds
  have hlist₁ : w₁.list? target = some items.toArray := hadds.list? hlist
  have hitems := listItems_eq_ok_of_list? hlist₁
  have hdivide := h.divide_eq
  cases f with
  | pop =>
    cases h.inserted_eq
    cases hdivide
    have hpop : items.toArray.pop = (items.dropLast ++ []).toArray := by simp
    change OnList.pop eng target w = _
    unfold OnList.pop
    rw [Run.bind_of_ok hitems, Run.bind_of_ok (modify_changeItems hlist hpop),
      ← toScript_eq_handOver (fun _ => rfl), List.back?_toArray]
    rfl
  | shift =>
    cases h.inserted_eq
    cases hdivide
    have herase : items.toArray.eraseIdxIfInBounds 0 = ([] ++ items.tail).toArray := by
      cases items <;> simp [Array.eraseIdxIfInBounds]
    change OnList.shift eng target w = _
    unfold OnList.shift
    rw [Run.bind_of_ok hitems, Run.bind_of_ok (modify_changeItems hlist herase),
      ← toScript_eq_handOver (fun _ => rfl), List.getElem?_toArray, ← List.head?_eq_getElem?]
    rfl
  | splice =>
    have hinserted : eng.toHostAll (args.drop 2) w = .ok inserted w₁ := h.inserted_eq
    have hsplice : Sequence.splice? items args inserted = .ok (removed, left) := hdivide
    change OnList.splice eng target args w = _
    unfold OnList.splice
    rw [Run.bind_of_ok hinserted, Run.bind_of_ok (listValues_eq_ok hlist₁)]
    simp only [hsplice]
    rw [Run.bind_of_ok (putItems_apply target left w₁)]
    rfl
  | _ => cases hf

theorem quiet_handOver (f : ListFunction) (removed : List Script.Value) :
    (f.handOver removed).Quiet := by
  unfold ListFunction.handOver
  split
  · exact Run.quiet_newScriptArray removed
  · exact .pure _

/-- However the elements cross, the list has lost them before. -/
theorem Division.list?_run (h : Division eng f args items w inserted removed left w₁)
    (hf : f.takesOut = true) (hlist : w.list? target = some items.toArray) :
    (Outcome.world (f.run eng invoke steps target this args w)).list? target =
      some left.toArray := by
  have hadds := eng.within_toHostAll (f.inserts args) w
  rw [h.inserted_eq] at hadds
  have hquiet : (eng.toScriptAll removed >>= f.handOver).Quiet :=
    .bind (eng.quiet_toScriptAll removed) (quiet_handOver f)
  rw [h.run_eq hf hlist, (hquiet.alike _).list?]
  exact World.list?_putData (hadds.list? hlist) _

/-- What is handed over is handed over without failing. -/
theorem handOver_eq_ok (f : ListFunction) (removed : List Script.Value) (w : World) :
    ∃ s w', f.handOver removed w = .ok s w' := by
  unfold ListFunction.handOver
  split <;> exact ⟨_, _, rfl⟩

/-- Once the items are divided, only a removed element that is refused makes the function fail. -/
theorem Division.run_eq_error_iff (h : Division eng f args items w inserted removed left w₁)
    (hf : f.takesOut = true) (hlist : w.list? target = some items.toArray) {e : Halt}
    {w' : World} :
    f.run eng invoke steps target this args w = .error e w' ↔
      eng.toScriptAll removed (w₁.putData target (.list left.toArray)) = .error e w' := by
  rw [h.run_eq hf hlist]
  refine ⟨fun hrun => ?_, Run.bind_of_error⟩
  obtain hcross | ⟨ss, w₂, -, hhand⟩ := Run.bind_eq_error hrun
  · exact hcross
  · obtain ⟨s, w₃, hok⟩ := handOver_eq_ok f ss w₂
    rw [hok] at hhand
    cases hhand

theorem run_of_refused (hf : f.takesOut = true) {e : Halt}
    (h : eng.toHostAll (f.inserts args) w = .error e w₁) :
    f.run eng invoke steps target this args w = .error e w₁ := by
  cases f with
  | splice => exact Run.bind_of_error h
  | pop => cases h
  | shift => cases h
  | _ => cases hf

theorem run_of_undivided (hf : f.takesOut = true) (hlist : w₁.list? target = some items.toArray)
    (h : eng.toHostAll (f.inserts args) w = .ok inserted w₁) {g : Fault}
    (hdivide : f.divide items args inserted = .error g) :
    f.run eng invoke steps target this args w = .error (.fault g) w₁ := by
  cases f with
  | splice =>
    have hinserted : eng.toHostAll (args.drop 2) w = .ok inserted w₁ := h
    have hsplice : Sequence.splice? items args inserted = .error g := hdivide
    change OnList.splice eng target args w = _
    unfold OnList.splice
    rw [Run.bind_of_ok hinserted, Run.bind_of_ok (listValues_eq_ok hlist)]
    simp only [hsplice]
    rfl
  | pop => cases hdivide
  | shift => cases hdivide
  | _ => cases hf

/-- The functions that take elements out of a list change the list before they carry the elements to
the script. One that fails while it carries its arguments to the host, or because its range starts
outside the list, leaves the list as it was. In all other cases the items are divided, and then the
list is left without the removed elements whether or not they can be delivered: the function fails
just if one of them is refused, and all of them are lost then. -/
theorem fails_before_or_loses (eng : Engine) (invoke : Invoke) (steps : Nat) (target : Value)
    (this : Script.Value) (args : List Script.Value) {f : ListFunction} (hf : f.takesOut = true)
    {items : List Value} {w : World} (hlist : w.list? target = some items.toArray) :
    ((∃ e w', f.run eng invoke steps target this args w = .error e w' ∧
        w'.list? target = some items.toArray) ∨
      ∃ inserted removed left w₁, Division eng f args items w inserted removed left w₁) ∧
    ∀ inserted removed left w₁, Division eng f args items w inserted removed left w₁ →
      (∃ before after, items = before ++ removed ++ after ∧ left = before ++ inserted ++ after) ∧
      (Outcome.world (f.run eng invoke steps target this args w)).list? target =
        some left.toArray ∧
      (∀ e w', f.run eng invoke steps target this args w = .error e w' ↔
        eng.toScriptAll removed (w₁.putData target (.list left.toArray)) = .error e w') ∧
      ∀ s w', f.run eng invoke steps target this args w = .ok s w' →
        ∃ ss w₂, eng.toScriptAll removed (w₁.putData target (.list left.toArray)) = .ok ss w₂ ∧
          f.handOver ss w₂ = .ok s w' := by
  refine ⟨?_, fun inserted removed left w₁ h => ⟨h.split hf, h.list?_run hf hlist,
    fun e w' => h.run_eq_error_iff hf hlist, fun s w' hrun => ?_⟩⟩
  · have hadds := eng.within_toHostAll (f.inserts args) w
    cases hinserted : eng.toHostAll (f.inserts args) w with
    | error e w₁ =>
      rw [hinserted] at hadds
      exact .inl ⟨e, w₁, run_of_refused hf hinserted, hadds.list? hlist⟩
    | ok inserted w₁ =>
      rw [hinserted] at hadds
      have hlist₁ := hadds.list? hlist
      cases hdivide : f.divide items args inserted with
      | error g => exact .inl ⟨_, w₁, run_of_undivided hf hlist₁ hinserted hdivide, hlist₁⟩
      | ok parts => exact .inr ⟨inserted, parts.1, parts.2, w₁, hinserted, hdivide⟩
  · rw [h.run_eq hf hlist] at hrun
    exact Run.bind_eq_ok hrun

/-- An engine that refuses to carry `true` across. -/
def refusingTrue : Engine :=
  { Engine.direct Config.standard with
    refusesHost := fun _ v => if v = .boolean true then some (.raised .type "refused") else none
    refusesScript := fun _ v => if v = .boolean true then some (.raised .type "refused") else none }

/-- The last element is refused, and the list has lost it. -/
theorem fails_before_or_loses_last :
    ∃ w', (ListFunction.pop).run refusingTrue (fun _ _ _ => pure .null) 0 onlyList .undefined []
        (World.ofItems [.null, .boolean true]) = .error (.fault (.raised .type "refused")) w' ∧
      w'.list? onlyList = some #[.null] := by
  have hdivision : Division refusingTrue .pop [] [.null, .boolean true]
      (World.ofItems [.null, .boolean true]) [] [.boolean true] [.null]
      (World.ofItems [.null, .boolean true]) := ⟨rfl, rfl⟩
  have hitems : (World.ofItems [.null, .boolean true]).list? onlyList =
      some [.null, .boolean true].toArray := rfl
  obtain ⟨-, hlist, hfails, -⟩ := (fails_before_or_loses refusingTrue (fun _ _ _ => pure .null) 0
    onlyList .undefined [] (f := .pop) rfl hitems).2 _ _ _ _ hdivision
  have hrun := (hfails _ _).2 rfl
  rw [hrun] at hlist
  exact ⟨_, hrun, hlist⟩

end Membrane
