import Membrane.Proofs.HeldSequence
import Membrane.Proofs.Removal
import Membrane.Proofs.Sort.Consultation

/-!
# Functions that change a list and functions that copy it

Three list functions come in two variants: one changes the list, the other leaves it alone and gives
an array of what the list would have been. Both go the same way up to the point where the new items
are known. Whatever fails before fails in both, and after it the one puts the items into the list
and the other carries them to the script.

## Main definitions

* `Prototype.ListFunction.changing?`: the variant that changes the list.
* `Tells`: that the outcome of the one variant tells what the other makes of the list.
* `Run.LeavesAlone`: a list is changed by calls of a comparator at most.

## Main results

* `tells_reverse`, `tells_sort`, `tells_splice`: the three pairs.
* `copies_tell_changes`: what the variants have to do with each other.
-/

namespace Membrane

open Host (Value)
open Prototype (ListFunction)

namespace Prototype.ListFunction

/-- The function that does to a list what a copying function does to its copy. -/
def changing? : ListFunction → Option ListFunction
  | .toReversed => some .reverse
  | .toSorted => some .sort
  | .toSpliced => some .splice
  | _ => none

/-- The argument by which a function compares elements. -/
def comparator? (f : ListFunction) (args : List Script.Value) : Option Script.Value :=
  match f with
  | .sort | .toSorted => args[0]?
  | _ => none

/-- The values that the two variants put in order: the items of the list, and the values that the
arguments put into it. -/
def Concerns (f : ListFunction) (eng : Engine) (args : List Script.Value) (items : List Value)
    (w : World) (v : Value) : Prop :=
  v ∈ items ∨ ∃ inserted w₁, eng.toHostAll (f.inserts args) w = .ok inserted w₁ ∧ v ∈ inserted

end Prototype.ListFunction

/-- How the variant that changes a list ends, and how the one that copies it does. Both fail in the
same way, or the first leaves some items in the list and the second gives a script array of what
these are carried to the script as. -/
inductive Tells (target : Value) : Outcome Script.Value → Outcome Script.Value → Prop
  /-- Both fail. -/
  | fails (e : Halt) (w₁ w₂ : World) : Tells target (.error e w₁) (.error e w₂)
  /-- Both succeed. -/
  | leaves {left : List Value} {s : Script.Value} {a : Ref .array} {ss : List Script.Value}
      {w₁ w₂ : World} (hleft : w₁.list? target = some left.toArray)
      (hcopy : w₂.arrays.get? a = some ss) (hshows : List.Forall₂ w₂.Shows left ss) :
      Tells target (.ok s w₁) (.ok (.array a) w₂)

/-- Whatever is true of a list and is kept by the calls of a comparator is true of it when a
computation has ended. -/
def Run.LeavesAlone {α : Type} (x : Run α) (invoke : Invoke) (comparator? : Option Script.Value)
    (target : Value) (w : World) : Prop :=
  ∀ P : Option (Array Value) → Prop,
    (∀ r this args w₁, comparator? = some (.function r) → P (w₁.list? target) →
      P ((Outcome.world (invoke r this args w₁)).list? target)) →
    P (w.list? target) → P ((Outcome.world (x w)).list? target)

section Variants

variable {eng : Engine} {invoke : Invoke} {target : Value} {this : Script.Value}
  {args : List Script.Value} {items left : List Value} {w w' : World}

/-- An object that was there still has storage. -/
theorem World.KeepsObjects.exists_data? {data : Host.Data} (h : w.KeepsObjects w')
    (hdata : w.data? target = some data) : ∃ data', w'.data? target = some data' := by
  obtain ⟨r, o, rfl, ho, -⟩ := exists_object_of_data? hdata
  obtain ⟨o', ho'⟩ := h (.object r) (fun r' hr' => by cases hr'; exact ⟨o, ho⟩) r rfl
  exact ⟨o'.data, by simp [World.data?, World.object?, Value.object?, ho']⟩

/-! ### What the variants tell of each other -/

/-- Computations that start alike tell of each other what they tell when they go on. -/
theorem Tells.bind {α : Type} {x : Run α} {f g : α → Run Script.Value}
    (h : ∀ a w₁, x w = .ok a w₁ → Tells target (f a w₁) (g a w₁)) :
    Tells target ((x >>= f) w) ((x >>= g) w) := by
  cases hx : x w with
  | ok a w₁ =>
    rw [Run.bind_of_ok hx, Run.bind_of_ok hx]
    exact h a w₁ hx
  | error e w₁ =>
    rw [Run.bind_of_error hx, Run.bind_of_error hx]
    exact .fails e w₁ w₁

/-- Items are left in the list by a computation that succeeds, and are copied. -/
theorem tells_of_left {x : Run Script.Value} {s : Script.Value} (hx : x w = .ok s w')
    (hleft : w'.list? target = some left.toArray) (hcross : ∀ v ∈ left, w.Crosses eng v) :
    Tells target (x w) (eng.toScriptArray left w) := by
  obtain ⟨a, ss, w₂, hcopy, ha, hshows, -⟩ := Engine.toScriptArray_eq_ok hcross
  rw [hx, hcopy]
  exact .leaves hleft ha hshows

theorem tells_reverse (hlist : w.list? target = some items.toArray)
    (hcross : ∀ v ∈ items, w.Crosses eng v) :
    Tells target (OnList.reverse target this w) (OnList.toReversed eng target w) := by
  unfold OnList.reverse OnList.toReversed
  rw [Run.bind_of_ok (listValues_eq_ok hlist), Run.bind_of_ok (listValues_eq_ok hlist)]
  exact tells_of_left (Run.bind_of_ok (putItems_apply target items.reverse w))
    (World.list?_putData hlist _) fun v hv => hcross v (List.mem_reverse.1 hv)

theorem tells_sort (hlist : w.list? target = some items.toArray)
    (hcross : ∀ v ∈ items, w.Crosses eng v)
    (htext : ∀ v, items = [v] → w.HasText v)
    (hinvoke : ∀ r this args, (invoke r this args).Within World.KeepsObjects) :
    Tells target (OnList.sort eng invoke target this args w)
      (OnList.toSorted eng invoke target args w) := by
  unfold OnList.sort OnList.toSorted
  rw [Run.bind_of_ok (listValues_eq_ok hlist), Run.bind_of_ok (listValues_eq_ok hlist)]
  by_cases hfew : items.length ≤ 1
  · have htexts : ∀ v ∈ items, w.HasText v := by
      rcases items with - | ⟨v, - | ⟨v', rest⟩⟩
      · exact nofun
      · exact List.forall_mem_singleton.2 (htext v rfl)
      · simp at hfew
    rw [if_neg (by omega),
      Run.bind_of_ok (sorted_eq_ok_of_length_le hfew args[0]? w fun _ => htexts)]
    exact tells_of_left rfl hlist hcross
  · rw [if_pos (by omega)]
    refine Tells.bind fun sorted w₁ hsorted => ?_
    have hkeeps : w.KeepsObjects w₁ := by
      have h := keeps_sorted (P := w.KeepsObjects) (fun _ _ heq hw v hv => (hw v hv).congr heq)
        eng items args (fun r this args' _ w₁ hw v hv => hinvoke r this args' w₁ v (hw v hv))
        fun _ hv => hv
      rwa [hsorted] at h
    obtain ⟨data, hdata⟩ := hkeeps.exists_data? (World.list?_eq_some_iff.1 hlist)
    refine tells_of_left (Run.bind_of_ok (putItems_apply target sorted w₁))
      (World.list?_putData_of_data? hdata _) fun v hv => ?_
    have hv' := hcross v ((perm_of_sorted hsorted).mem_iff.1 hv)
    exact ⟨hv'.passes, hkeeps v hv'.known⟩

theorem tells_splice (h : w.HoldsSequence target items)
    (hpasses : ∀ v, (ListFunction.splice).Concerns eng args items w v →
      ∀ w', eng.refusesHost w' v = none) :
    Tells target (OnList.splice eng target args w) (OnList.toSpliced eng target args w) := by
  refine Tells.bind fun inserted w₁ hinserted => ?_
  have hadds : w.AddsObjects w₁ := (eng.within_toHostAll (args.drop 2)).rel_of_ok hinserted
  have hlist := hadds.list? h.list
  have hcross : ∀ v, v ∈ items ∨ v ∈ inserted → w₁.Crosses eng v := by
    rintro v (hv | hv)
    · exact ⟨hpasses v (.inl hv), hadds.knows (h.items v hv)⟩
    · exact ⟨hpasses v (.inr ⟨inserted, w₁, hinserted, hv⟩),
        Engine.knows_of_toHostAll h.targets hinserted v hv⟩
  rw [Run.bind_of_ok (listValues_eq_ok hlist), Run.bind_of_ok (listValues_eq_ok hlist)]
  cases hsplice : Sequence.splice? items args inserted with
  | error f => exact .fails _ w₁ w₁
  | ok parts =>
    obtain ⟨removed, left⟩ := parts
    have hdivision : Division eng .splice args items w inserted removed left w₁ :=
      ⟨hinserted, hsplice⟩
    obtain ⟨before, after, hitems, hleft⟩ := hdivision.split rfl
    have hremoved : ∀ v ∈ removed, (w₁.putData target (.list left.toArray)).Crosses eng v := by
      intro v hv
      have hv' := hcross v (.inl (by simp [hitems, hv]))
      exact ⟨hv'.passes, hv'.known.putData target _⟩
    obtain ⟨b, -, w₂, hgive, -, -, hobjects⟩ := Engine.toScriptArray_eq_ok hremoved
    refine tells_of_left hgive ?_ fun v hv => hcross v ?_
    · rw [World.list?_congr hobjects]
      exact World.list?_putData hlist _
    · rw [hleft] at hv
      rw [hitems]
      simp only [List.mem_append] at hv ⊢
      tauto

/-! ### What becomes of the list -/

section Alone

variable {α β : Type} {comparator? : Option Script.Value}

theorem Run.LeavesAlone.of_looks {x : Run α} (hx : x.Looks) :
    x.LeavesAlone invoke comparator? target w := by
  intro P _ hw
  rwa [hx w]

theorem Run.LeavesAlone.of_quiet {x : Run α} (hx : x.Quiet) :
    x.LeavesAlone invoke comparator? target w := by
  intro P _ hw
  rwa [(hx.alike w).list?]

theorem Run.LeavesAlone.bind {x : Run α} {f : α → Run β}
    (hx : x.LeavesAlone invoke comparator? target w)
    (hf : ∀ a w₁, (f a).LeavesAlone invoke comparator? target w₁) :
    (x >>= f).LeavesAlone invoke comparator? target w := by
  intro P hinvoke hw
  have h := hx P hinvoke hw
  cases hrun : x w with
  | ok a w₁ =>
    rw [hrun] at h
    rw [Run.bind_of_ok hrun]
    exact hf a w₁ P hinvoke h
  | error e w₁ =>
    rw [hrun] at h
    rwa [Run.bind_of_error hrun]

end Alone

theorem leavesAlone_toReversed {comparator? : Option Script.Value} :
    (OnList.toReversed eng target).LeavesAlone invoke comparator? target w :=
  .bind (.of_looks (looks_listValues target)) fun _ _ => .of_quiet (eng.quiet_toScriptArray _)

/-- A sort changes the list at most by consulting the comparator. -/
theorem leavesAlone_toSorted :
    (OnList.toSorted eng invoke target args).LeavesAlone invoke args[0]? target w := by
  refine .bind (.of_looks (looks_listValues target)) fun items w₁ => .bind ?_ fun sorted w₂ =>
    .of_quiet (eng.quiet_toScriptArray sorted)
  intro P hinvoke hw
  refine keeps_sorted (P := fun w => P (w.list? target)) (fun _ _ heq hw => ?_) eng items args
    (fun r this args' hr w₁ hw => hinvoke r this args' w₁ hr hw) hw
  rwa [World.list?_congr heq]

theorem leavesAlone_toSpliced {comparator? : Option Script.Value}
    (hlist : w.list? target = some items.toArray) :
    (OnList.toSpliced eng target args).LeavesAlone invoke comparator? target w := by
  refine .bind (fun P _ hw => ?_) fun inserted w₁ => ?_
  · rwa [(eng.within_toHostAll (args.drop 2) w).list? hlist, ← hlist]
  · refine .bind (.of_looks (looks_listValues target)) fun items w₂ => .of_quiet ?_
    split
    · exact .raise _
    · exact eng.quiet_toScriptArray _

/-! ### Both -/

/-- The list functions that copy a list agree with those that change it. Started in the same world
with the same arguments and a comparator that gives the same answers, each of the two fails just if
the other does, and in the same way. If they succeed, the one leaves some items in the list and the
other gives a script array of what these are carried to the script as. The functions that copy leave
the list alone: just the comparator can change it. All this as long as the engine lets the elements
cross, and callables let no object vanish. A single element is to have a text as well: only the sort
of a copy asks for it. -/
theorem copies_tell_changes {eng : Engine} {invoke : Invoke} (steps : Nat) {target : Value}
    (this this' : Script.Value) (args : List Script.Value) {copying changing : ListFunction}
    (hf : copying.changing? = some changing) {items : List Value} {w : World}
    (hw : w.HoldsSequence target items)
    (hpasses : ∀ v, changing.Concerns eng args items w v → ∀ w', eng.refusesHost w' v = none)
    (htext : copying = .toSorted → ∀ v, items = [v] → w.HasText v)
    (hinvoke : ∀ r this args, (invoke r this args).Within World.KeepsObjects) :
    Tells target (changing.run eng invoke steps target this args w)
        (copying.run eng invoke steps target this' args w) ∧
      (copying.run eng invoke steps target this' args).LeavesAlone invoke
        (copying.comparator? args) target w := by
  have hcross : ∀ v ∈ items, w.Crosses eng v := fun v hv => ⟨hpasses v (.inl hv), hw.items v hv⟩
  cases copying with
  | toReversed =>
    cases hf
    exact ⟨tells_reverse hw.list hcross, leavesAlone_toReversed⟩
  | toSorted =>
    cases hf
    exact ⟨tells_sort hw.list hcross (htext rfl) hinvoke, leavesAlone_toSorted⟩
  | toSpliced =>
    cases hf
    exact ⟨tells_splice hw hpasses, leavesAlone_toSpliced hw.list⟩
  | _ => cases hf

/-- The world with a list of two numbers. -/
def twoNumbers : World := World.ofItems [.integer 1, .integer 2]

/-- The arguments that put a text between them. -/
def textBetween : List Script.Value := [.integer 1, .integer 0, .string "a"]

/-- A text is put between two numbers, in the list and in a copy of it. -/
theorem copies_tell_changes_spliced :
    Tells onlyList
      ((ListFunction.splice).run (Engine.direct Config.standard) (fun _ _ _ => pure .null) 0
        onlyList .undefined textBetween twoNumbers)
      ((ListFunction.toSpliced).run (Engine.direct Config.standard) (fun _ _ _ => pure .null) 0
        onlyList .undefined textBetween twoNumbers) ∧
    (Outcome.world ((ListFunction.toSpliced).run (Engine.direct Config.standard)
      (fun _ _ _ => pure .null) 0 onlyList .undefined textBetween twoNumbers)).list? onlyList =
        some #[.integer 1, .integer 2] := by
  have hholds : twoNumbers.HoldsSequence onlyList [.integer 1, .integer 2] :=
    ⟨rfl, by simp [World.Knows], fun r h hr => by cases hr⟩
  have hboth := @copies_tell_changes (Engine.direct Config.standard) (fun _ _ _ => pure .null) 0
    onlyList .undefined .undefined textBetween .toSpliced .splice rfl _ _ hholds (fun _ _ _ => rfl)
    nofun (fun _ _ _ _ _ hv => hv)
  exact ⟨hboth.1, hboth.2 (· = some #[.integer 1, .integer 2]) (fun _ _ _ _ hr => by cases hr) rfl⟩

end Variants

end Membrane
