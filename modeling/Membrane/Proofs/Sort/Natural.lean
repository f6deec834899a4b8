import Mathlib.Data.List.Lex
import Membrane.Proofs.FiniteTexts
import Membrane.Proofs.Items
import Membrane.Proofs.Sort.Consultation

/-!
# The natural order of a list

A list that is sorted without a comparator is put in the order of the string forms of its elements,
compared by their 16-bit code units. The forms are those the elements have when the sort begins: an
element may contain the list, and a list may even contain itself, so its form may be another one
afterwards. If the forms do not depend on the order of the list, a second sort changes nothing. If
one of two or more elements has no string form, the sort does not end.

## Main definitions

* `NaturallySorted`: items in the order of their string forms, equal ones in the order they had.
* `World.IgnoresOrder`: that the string form of a value does not depend on the order of a list.
* `World.Closes`: some collections with all that is written in them.

## Main results

* `Text.unitsLE_iff`: the test of the order is the lexicographic order.
* `Text.units_lt_of_beyond`: characters beyond `U+FFFF` come before those from `U+E000` on.
* `naturallySorted_inTextOrder`: what the order of string forms gives.
* `World.ignoresOrder_of_closes`: values that do not contain a list ignore its order.
* `sort_naturally`: the sort without a comparator.
* `sort_exhausted`: the sort of elements without a string form.
-/

namespace Membrane

open Host (Value Segment)
open Prototype (ListFunction)

/-! ### Code units -/

namespace Text

theorem cons_le_cons_iff {a b : Nat} {as bs : List Nat} :
    a :: as ≤ b :: bs ↔ a < b ∨ a = b ∧ as ≤ bs := by
  have hle : a :: as ≤ b :: bs ↔ ¬ (b < a ∨ b = a ∧ bs < as) :=
    not_lt.symm.trans (not_congr List.cons_lt_cons_iff)
  rw [hle, not_or, not_lt, not_and, le_iff_lt_or_eq]
  constructor
  · rintro ⟨hlt | rfl, h⟩
    · exact .inl hlt
    · exact .inr ⟨rfl, not_lt.1 (h rfl)⟩
  · rintro (hlt | ⟨rfl, h⟩)
    · exact ⟨.inl hlt, fun heq => absurd heq.symm hlt.ne⟩
    · exact ⟨.inr rfl, fun _ => not_lt.2 h⟩

/-- The test is the lexicographic order. -/
theorem unitsLE_iff {as bs : List Nat} : unitsLE as bs = true ↔ as ≤ bs := by
  induction as generalizing bs with
  | nil => exact iff_of_true rfl (not_lt.1 (List.not_lt_nil bs))
  | cons a as ih =>
    cases bs with
    | nil => exact iff_of_false nofun (not_le.2 (List.nil_lt_cons a as))
    | cons b bs =>
      rw [cons_le_cons_iff, ← ih]
      simp only [unitsLE, Bool.or_eq_true, Bool.and_eq_true, decide_eq_true_eq]

theorem unitsLE_trans (as bs cs : List Nat) (h : unitsLE as bs = true) (h' : unitsLE bs cs = true) :
    unitsLE as cs = true :=
  unitsLE_iff.2 ((unitsLE_iff.1 h).trans (unitsLE_iff.1 h'))

theorem unitsLE_total (as bs : List Nat) : (unitsLE as bs || unitsLE bs as) = true := by
  rw [Bool.or_eq_true, unitsLE_iff, unitsLE_iff]
  exact le_total as bs

/-- A text with a character beyond `U+FFFF` comes before one that has a character from `U+E000` to
`U+FFFF` instead: the first code unit of the former is a surrogate. -/
theorem units_lt_of_beyond {c d : Char} (hc : 0xFFFF < c.toNat) (hd : 0xE000 ≤ d.toNat)
    (hd' : d.toNat ≤ 0xFFFF) (before after after' : List Char) :
    units (String.ofList (before ++ c :: after)) <
      units (String.ofList (before ++ d :: after')) := by
  have hvalid : c.toNat < 0x110000 := by
    obtain h | ⟨-, h⟩ := c.valid
    · exact lt_trans h (by decide)
    · exact h
  have hunits : charUnits c = [0xD800 + (c.toNat - 0x10000) / 0x400,
      0xDC00 + (c.toNat - 0x10000) % 0x400] := if_neg (by omega)
  have hunit : charUnits d = [d.toNat] := if_pos (by omega)
  simp only [units, String.toList_ofList, List.flatMap_append, List.flatMap_cons, hunits, hunit]
  refine List.append_left_lt (List.cons_lt_cons_iff.2 (.inl ?_))
  omega

end Text

/-! ### The order -/

/-- Some items in the order of their string forms in a world. -/
structure NaturallySorted (w : World) (items sorted : List Value) : Prop where
  /-- No item is lost or added. -/
  perm : sorted.Perm items
  /-- The code units of the string forms are in order. -/
  ordered : sorted.Pairwise fun a b => Text.units (w.hostText a) ≤ Text.units (w.hostText b)
  /-- The items of one string form keep their order. -/
  stable : ∀ s, sorted.filter (fun v => w.hostText v = s) = items.filter fun v => w.hostText v = s

section Order

variable {w : World} {items sorted : List Value}

/-- Of two items the one with the smaller string form comes first. -/
theorem NaturallySorted.lt_of_units_lt (h : NaturallySorted w items sorted) {i j : Nat}
    {a b : Value} (ha : sorted[i]? = some a) (hb : sorted[j]? = some b)
    (hlt : Text.units (w.hostText a) < Text.units (w.hostText b)) : i < j := by
  by_contra hji
  obtain ⟨hi, rfl⟩ := List.getElem?_eq_some_iff.1 ha
  obtain ⟨hj, rfl⟩ := List.getElem?_eq_some_iff.1 hb
  obtain heq | hji := Nat.eq_or_lt_of_le (Nat.le_of_not_lt hji)
  · subst heq
    exact lt_irrefl _ hlt
  · exact not_le.2 hlt (List.pairwise_iff_getElem.1 h.ordered j i hj hi hji)

/-- Whether a value comes before another or has the same string form, as a test. -/
def textLE (w : World) (a b : Value) : Bool :=
  Text.unitsLE (Text.units (w.hostText a)) (Text.units (w.hostText b))

/-- To sort the items with their string forms is to sort them by their string forms. -/
theorem inTextOrder_eq_mergeSort (w : World) (items : List Value) :
    w.inTextOrder items = items.mergeSort (textLE w) := by
  have hsort : (items.mergeSort (textLE w)).map (fun v => (Text.units (w.hostText v), v)) =
      (items.map fun v => (Text.units (w.hostText v), v)).mergeSort
        fun a b => Text.unitsLE a.1 b.1 :=
    List.map_mergeSort fun _ _ _ _ => rfl
  rw [World.inTextOrder, ← hsort, List.map_map]
  exact List.map_id _

theorem textLE_trans (a b c : Value) (h : textLE w a b = true) (h' : textLE w b c = true) :
    textLE w a c = true :=
  Text.unitsLE_trans _ _ _ h h'

theorem textLE_total (a b : Value) : (textLE w a b || textLE w b a) = true :=
  Text.unitsLE_total _ _

theorem naturallySorted_inTextOrder (w : World) (items : List Value) :
    NaturallySorted w items (w.inTextOrder items) where
  perm := perm_inTextOrder w items
  ordered := by
    rw [inTextOrder_eq_mergeSort]
    exact (List.pairwise_mergeSort textLE_trans textLE_total items).imp Text.unitsLE_iff.1
  stable s := by
    -- The items of one form are in order already, so they stand in the result as they are.
    have hordered : (items.filter fun v => w.hostText v = s).Pairwise fun a b =>
        textLE w a b = true := by
      refine List.pairwise_of_forall_mem_list fun a ha b hb => Text.unitsLE_iff.2 ?_
      rw [of_decide_eq_true (List.mem_filter.1 ha).2, of_decide_eq_true (List.mem_filter.1 hb).2]
    have hsublist := (List.sublist_mergeSort textLE_trans textLE_total hordered
      List.filter_sublist).filter fun v => w.hostText v = s
    rw [List.filter_filter, ← inTextOrder_eq_mergeSort] at hsublist
    simp only [Bool.and_self] at hsublist
    refine (hsublist.eq_of_length ?_).symm
    rw [← List.countP_eq_length_filter, ← List.countP_eq_length_filter]
    exact (perm_inTextOrder w items).symm.countP_eq _

/-- Items in order stay as they are. -/
theorem inTextOrder_eq_self
    (h : items.Pairwise fun a b => Text.units (w.hostText a) ≤ Text.units (w.hostText b)) :
    w.inTextOrder items = items := by
  rw [inTextOrder_eq_mergeSort]
  exact List.mergeSort_of_pairwise (h.imp Text.unitsLE_iff.2)

end Order

/-! ### Forms that do not depend on the list -/

/-- What is written for a value is text or one of some collections. -/
def Writing.IsAmong (places : Set Place) : Writing → Prop
  | .text _ => True
  | .place p => p ∈ places

namespace World

/-- Some collections have among them all collections that are written in them. -/
structure Closes (w : World) (places : Set Place) : Prop where
  /-- Those written in a host object. -/
  objects : ∀ r o, .object r ∈ places → w.objects.get? r = some o → ∀ v ∈ o.data.values,
    (w.writeHost v).IsAmong places
  /-- Those written in a script array. -/
  arrays : ∀ r ss, .array r ∈ places → w.arrays.get? r = some ss → ∀ s ∈ ss,
    (w.writeScript s).IsAmong places

/-- The string form of a value is the same, or not there, in whatever order a list has its items. -/
def IgnoresOrder (w : World) (target : Value) (items : List Value) (v : Value) : Prop :=
  ∀ items' : List Value, items'.Perm items →
    (w.putData target (.list items'.toArray)).hostText? v = w.hostText? v

variable {w : World} {places : Set Place} {r : Ref .object}

/-- To replace the storage of an object changes nothing that is written without it. -/
theorem write_putData_of_closes (h : w.Closes places) (hr : .object r ∉ places) (data : Host.Data)
    {x : Writing} (hx : x.IsAmong places) (n : Nat) (outer : List (Ref .object))
    (inner : List (Ref .array)) : (w.putData (.object r) data).write [] n outer inner x =
      w.write [] n outer inner x := by
  induction n generalizing outer inner x with
  | zero => cases x <;> rfl
  | succ n ih =>
    match x with
    | .text s => rfl
    | .place (.array a) =>
      have hparts : ∀ s ∈ (w.arrays.get? a).getD [], (w.writeScript s).IsAmong places := by
        cases ha : w.arrays.get? a with
        | none => nofun
        | some ss => exact h.arrays a ss hx ha
      simp only [write]
      refine congrArg (ite _ _) (congrArg (· >>= _) (mapM_congr fun s hs => ?_))
      exact congrArg (ite _ _) (ih (hparts s hs) outer (a :: inner))
    | .place (.object r') =>
      have hne : r ≠ r' := fun heq => hr (heq ▸ hx)
      have hget : (w.putData (.object r) data).objects.get? r' = w.objects.get? r' :=
        Store.get?_modify_of_ne _ _ hne
      simp only [write, hget]
      cases ho : w.objects.get? r' with
      | none => rfl
      | some o =>
        cases hc : o.data.collection? with
        | none => simp only [hc]; rfl
        | some c =>
          simp only [hc]
          refine congrArg (ite _ _) (congrArg (ite _ _) (Collection.write?_congr ?_))
          exact fun values hvalues v hv =>
            ih (h.objects r' o hx ho v (Host.Data.mem_values_of_mem_elements hc hvalues hv))
              (r' :: outer) []

/-- A value ignores the order of a list that is not among the collections written in it. -/
theorem ignoresOrder_of_closes (h : w.Closes places) (hr : .object r ∉ places) {v : Value}
    (hv : (w.writeHost v).IsAmong places) (items : List Value) :
    w.IgnoresOrder (.object r) items v := by
  unfold IgnoresOrder
  intro items' _
  have hdepth : (w.putData (.object r) (.list items'.toArray)).depth = w.depth := by
    unfold depth
    exact congrArg (fun n => (n + 1) * (w.arrays.size + 1) + 1) Array.size_modify
  unfold hostText?
  rw [hdepth]
  exact write_putData_of_closes h hr _ hv _ _ _

theorem hostText_null (w : World) : w.hostText .null = "null" :=
  (hasText_of_eq (v := .null) (write_text w _ _ _ _ _)).2

end World

/-! ### The sort -/

section Sorting

variable {eng : Engine} {invoke : Invoke} {target : Value} {items : List Value} {w : World}

theorem sorted_eq_naturalOrder {args : List Script.Value}
    (hargs : (Arguments.get args 0).isFunction = false) (items : List Value) :
    OnList.sorted eng invoke items args[0]? = OnList.naturalOrder items := by
  have hnone : args[0]?.filter Script.Value.isFunction = none := by
    rw [Option.filter_eq_none_iff]
    intro v hv
    rw [Arguments.get, hv, Option.getD_some] at hargs
    rw [hargs]
    exact Bool.false_ne_true
  simp only [OnList.sorted, hnone]

theorem sort_eq_ok (hlist : w.list? target = some items.toArray)
    (htexts : 1 < items.length → ∀ v ∈ items, w.HasText v) (this : Script.Value)
    {args : List Script.Value} (hargs : (Arguments.get args 0).isFunction = false) :
    OnList.sort eng invoke target this args w =
      .ok this (w.putData target (.list (w.inTextOrder items).toArray)) := by
  unfold OnList.sort
  rw [Run.bind_of_ok (listValues_eq_ok hlist)]
  by_cases hmany : 1 < items.length
  · rw [if_pos hmany, sorted_eq_naturalOrder hargs,
      Run.bind_of_ok (naturalOrder_of_forall (htexts hmany))]
    rfl
  · have hself : w.inTextOrder items = items := by
      refine inTextOrder_eq_self ?_
      rcases items with - | ⟨v, - | ⟨v', rest⟩⟩
      · exact .nil
      · exact List.pairwise_singleton _ v
      · exact absurd (by simp) hmany
    rw [if_neg hmany, hself, World.putData,
      World.changeData_eq_self (World.list?_eq_some_iff.1 hlist) rfl]
    rfl

/-- A list of two or more elements, one of which has no string form, is left as it is by a sort
without a callable argument, which does not end. -/
theorem sort_exhausted (hlist : w.list? target = some items.toArray) (hmany : 1 < items.length)
    (hendless : ∃ v ∈ items, ¬w.HasText v) (this : Script.Value) {args : List Script.Value}
    (hargs : (Arguments.get args 0).isFunction = false) :
    OnList.sort eng invoke target this args w = .error .exhausted w := by
  unfold OnList.sort
  rw [Run.bind_of_ok (listValues_eq_ok hlist), if_pos hmany, sorted_eq_naturalOrder hargs]
  exact Run.bind_of_error (naturalOrder_of_exists hendless)

/-- A list in the order of its string forms is not changed by a second sort, if its elements ignore
its order. -/
theorem sort_again_eq_ok (hlist : w.list? target = some items.toArray) {sorted : List Value}
    (htexts : 1 < items.length → ∀ v ∈ items, w.HasText v)
    (hsorted : NaturallySorted w items sorted)
    (hignores : ∀ v ∈ items, w.IgnoresOrder target items v) (this : Script.Value)
    {args : List Script.Value} (hargs : (Arguments.get args 0).isFunction = false) :
    OnList.sort eng invoke target this args (w.putData target (.list sorted.toArray)) =
      .ok this (w.putData target (.list sorted.toArray)) := by
  have hlist' := World.list?_putData hlist sorted.toArray
  have hsame {v : Value} (hv : v ∈ sorted) :
      (w.putData target (.list sorted.toArray)).hostText? v = w.hostText? v :=
    hignores v (hsorted.perm.mem_iff.1 hv) sorted hsorted.perm
  have htexts' : 1 < sorted.length → ∀ v ∈ sorted,
      (w.putData target (.list sorted.toArray)).HasText v := by
    intro hmany v hv
    rw [World.HasText, hsame hv]
    exact htexts (hsorted.perm.length_eq ▸ hmany) v (hsorted.perm.mem_iff.1 hv)
  have hself : (w.putData target (.list sorted.toArray)).inTextOrder sorted = sorted := by
    refine inTextOrder_eq_self (hsorted.ordered.imp_of_mem fun ha hb hle => ?_)
    rwa [World.hostText, World.hostText, hsame ha, hsame hb]
  rw [sort_eq_ok hlist' htexts' this hargs, hself]
  exact congrArg (EStateM.Result.ok this)
    (World.changeData_eq_self (World.list?_eq_some_iff.1 hlist') rfl)

end Sorting

/-- A list whose items have string forms, if there are two or more of them, is sorted without a
callable argument: it has its items in the order of the string forms they had before, items of one
form in the order they had. Nothing is called. A null has the form of the text `null`, and a
character beyond `U+FFFF` makes a form come before one with a character from `U+E000` to `U+FFFF`
instead. If the forms of the items do not depend on the order of the list, a second sort changes
nothing. Items have string forms as long as no script array contains itself; if one of two or more
has none, the sort does not end. -/
theorem sort_naturally (eng : Engine) (target : Value) {items : List Value} {w : World}
    (hlist : w.list? target = some items.toArray) :
    ((1 < items.length → ∀ v ∈ items, w.HasText v) →
      ∃ sorted w', NaturallySorted w items sorted ∧ w'.list? target = some sorted.toArray ∧
        w'.ledger = w.ledger ∧
        (∀ invoke steps this args, (Arguments.get args 0).isFunction = false →
          (ListFunction.sort).run eng invoke steps target this args w = .ok this w') ∧
        w.hostText .null = "null" ∧
        (∀ (i j : Nat) (a b : Value) (before after after' : List Char) (c d : Char),
          sorted[i]? = some a → sorted[j]? = some b →
          w.hostText a = String.ofList (before ++ c :: after) →
          w.hostText b = String.ofList (before ++ d :: after') →
          0xFFFF < c.toNat → 0xE000 ≤ d.toNat → d.toNat ≤ 0xFFFF → i < j) ∧
        ((∀ v ∈ items, w.IgnoresOrder target items v) →
          ∀ invoke steps this args, (Arguments.get args 0).isFunction = false →
            (ListFunction.sort).run eng invoke steps target this args w' = .ok this w')) ∧
    ((∀ r, ¬Relation.TransGen w.IsItem r r) → ∀ v ∈ items, w.HasText v) ∧
    (1 < items.length → (∃ v ∈ items, ¬w.HasText v) →
      ∀ invoke steps this args, (Arguments.get args 0).isFunction = false →
        (ListFunction.sort).run eng invoke steps target this args w = .error .exhausted w) := by
  refine ⟨fun htexts => ?_, fun hacyclic v _ => World.forall_hasText_iff.2 hacyclic v,
    fun hmany hendless invoke steps this args hargs =>
      sort_exhausted hlist hmany hendless this hargs⟩
  have hsorted := naturallySorted_inTextOrder w items
  refine ⟨_, w.putData target (.list (w.inTextOrder items).toArray), hsorted,
    World.list?_putData hlist _, World.ledger_putData w target _,
    fun invoke steps this args hargs => sort_eq_ok hlist htexts this hargs, w.hostText_null, ?_,
    fun hignores invoke steps this args hargs =>
      sort_again_eq_ok hlist htexts hsorted hignores this hargs⟩
  intro i j a b before after after' c d ha hb hatext hbtext hc hd hd'
  refine hsorted.lt_of_units_lt ha hb ?_
  rw [hatext, hbtext]
  exact Text.units_lt_of_beyond hc hd hd' before after after'

/-- A list that contains itself is sorted, and its items of one form stay in their order. Two items
that are no collections are not changed by a second sort. -/
theorem sort_naturally_itself :
    (∃ (sorted : List Value) (w' : World),
        (ListFunction.sort).run (Engine.direct Config.standard) (fun _ _ _ => pure .null) 0 onlyList
          .undefined [] (World.ofItems [.string "1", onlyList, .null, .integer 1]) =
            .ok .undefined w' ∧
        w'.list? onlyList = some sorted.toArray ∧ sorted.length = 4 ∧
        sorted.filter (fun v =>
          (World.ofItems [.string "1", onlyList, .null, .integer 1]).hostText v = "1") =
            [.string "1", .integer 1]) ∧
      ∃ w', (ListFunction.sort).run (Engine.direct Config.standard) (fun _ _ _ => pure .null) 0
          onlyList .undefined [.null] (World.ofItems [.string "b", .integer 1]) =
            .ok .undefined w' ∧
        (ListFunction.sort).run (Engine.direct Config.standard) (fun _ _ _ => pure .null) 0
          onlyList .undefined [] w' = .ok .undefined w' := by
  constructor
  · have hlist : (World.ofItems [.string "1", onlyList, .null, .integer 1]).list? onlyList =
      some [.string "1", onlyList, .null, .integer 1].toArray := rfl
    obtain ⟨sorted, w', hsorted, hlist', -, hrun, -⟩ :=
      (sort_naturally (Engine.direct Config.standard) onlyList hlist).1 fun _ => by decide
    exact ⟨sorted, w', hrun _ 0 .undefined [] rfl, hlist', hsorted.perm.length_eq,
      (hsorted.stable "1").trans (by decide)⟩
  · have hlist : (World.ofItems [.string "b", .integer 1]).list? onlyList =
      some [.string "b", .integer 1].toArray := rfl
    obtain ⟨sorted, w', -, -, -, hrun, -, -, hagain⟩ :=
      (sort_naturally (Engine.direct Config.standard) onlyList hlist).1 fun _ => by decide
    refine ⟨w', hrun _ 0 .undefined [.null] rfl, hagain ?_ _ 0 .undefined [] rfl⟩
    have hcloses : (World.ofItems [.string "b", .integer 1]).Closes ∅ := ⟨nofun, nofun⟩
    intro v hv
    refine World.ignoresOrder_of_closes hcloses nofun ?_ _
    obtain rfl | rfl : v = .string "b" ∨ v = .integer 1 := by simpa using hv
    · trivial
    · trivial

end Membrane
