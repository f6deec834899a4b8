import Membrane.Proofs.Members
import Mathlib.Data.List.Induction
import Mathlib.Data.List.Pairwise

/-!
# Histories of sets

A set is what the history of its edits leaves. A value is there if it was added, or one equal to it
was, and none has been taken out since. What is kept of it is the value that was added first, and
this has its place from that time on: adding it again moves nothing, and taking out others moves
nothing either. So a set can be told from its history, without the lists it went through.

## Main definitions

* `Members.Edit`, `Members.Edit.apply`: what is done to a set.
* `Members.origin?`: what a history tells of a value.
* `Members.Recalls`: that a set is what a history leaves.

## Main results

* `Members.Recalls.apply`: one edit.
* `Members.recalls_additions`: a set is what the additions of its members leave.
* `Members.Recalls.distinct`: what a history leaves has no two equal members.
* `Members.Recalls.unique`: a history leaves one set only.
-/

namespace Membrane.Members

variable {α : Type}

/-- What is done to a set, or asked of it. -/
inductive Edit (α : Type) where
  /-- A value is added. -/
  | add (a : α)
  /-- A value is taken out. -/
  | remove (a : α)
  /-- A value is looked for. -/
  | look (a : α)
  /-- All values are taken out. -/
  | clear
  deriving DecidableEq

/-- The values an edit brings. -/
def Edit.values : Edit α → List α
  | .add a => [a]
  | _ => []

variable [BEq α]

/-- What an edit leaves of a set. -/
def Edit.apply (s : List α) : Edit α → List α
  | .add a => insert s a
  | .remove a => erase s a
  | .look _ => s
  | .clear => []

/-- Whether the value an edit is about is there before. -/
def Edit.found (s : List α) : Edit α → Bool
  | .add a | .remove a | .look a => contains s a
  | .clear => false

/-- When a value was added, by the number of edits before, and the value equal to it that was added
then. The first time since it was last taken out counts. The latest edit comes first. -/
def origin? (a : α) : List (Edit α) → Option (Nat × α)
  | [] => none
  | .add b :: log => if b == a then some ((origin? a log).getD (log.length, b)) else origin? a log
  | .remove b :: log => if b == a then none else origin? a log
  | .look _ :: log => origin? a log
  | .clear :: _ => none

/-- Whether the value an edit is about was there before, by what the history tells. -/
def Edit.recalled (log : List (Edit α)) : Edit α → Bool
  | .add a | .remove a | .look a => (origin? a log).isSome
  | .clear => false

/-- Of two values that are there, one has been there longer. -/
def OlderIn (log : List (Edit α)) (a b : α) : Prop :=
  ∃ p q, origin? a log = some p ∧ origin? b log = some q ∧ p.1 < q.1

/-- A set is what a history leaves. -/
structure Recalls (log : List (Edit α)) (s : List α) : Prop where
  /-- Of the values equal to one, that which was added first is there. -/
  find?_eq : ∀ a, s.find? (· == a) = (origin? a log).map Prod.snd
  /-- The members are ordered by how long they have been there. -/
  ordered : s.Pairwise (OlderIn log)

/-- The members of a set as a history: each was added at its turn. -/
def additions (s : List α) : List (Edit α) := (s.map .add).reverse

/-! ### What a history tells -/

section Origin

variable {log : List (Edit α)} {a b c : α} {p : Nat × α}

theorem origin?_lt (h : origin? a log = some p) : p.1 < log.length := by
  induction log generalizing p with
  | nil => cases h
  | cons e log ih =>
    have hold (hp : origin? a log = some p) : p.1 < (e :: log).length :=
      Nat.lt_succ_of_lt (ih hp)
    cases e with
    | add b =>
      unfold origin? at h
      split at h
      · cases hp : origin? a log with
        | none =>
          rw [hp] at h
          cases h
          exact Nat.lt_succ_self _
        | some q =>
          rw [hp] at h
          cases h
          exact hold hp
      · exact hold h
    | remove b =>
      unfold origin? at h
      split at h
      · cases h
      · exact hold h
    | look b => exact hold h
    | clear => cases h

/-- A history does not tell equal values apart. -/
theorem origin?_congr [EquivBEq α] (h : a == b) (log : List (Edit α)) :
    origin? a log = origin? b log := by
  induction log with
  | nil => rfl
  | cons e log ih =>
    cases e with
    | add c | remove c => simp only [origin?, BEq.congr_right h, ih]
    | look c => exact ih
    | clear => rfl

/-- To add a value that is there tells nothing new. -/
theorem origin?_add_of_isSome [EquivBEq α] (h : (origin? a log).isSome) (c : α) :
    origin? c (.add a :: log) = origin? c log := by
  by_cases hac : a == c
  · rw [origin?_congr hac] at h
    obtain ⟨p, hp⟩ := Option.isSome_iff_exists.1 h
    rw [origin?, if_pos hac, hp, Option.getD_some]
  · exact if_neg hac

theorem origin?_add_of_beq (h : a == c) (hnone : origin? c log = none) :
    origin? c (.add a :: log) = some (log.length, a) := by
  rw [origin?, if_pos h, hnone, Option.getD_none]

theorem origin?_add_of_ne (h : (a == c) = false) :
    origin? c (.add a :: log) = origin? c log :=
  if_neg (Bool.not_eq_true _ ▸ h)

theorem origin?_remove_of_ne (h : (a == c) = false) :
    origin? c (.remove a :: log) = origin? c log :=
  if_neg (Bool.not_eq_true _ ▸ h)

end Origin

/-! ### What a history leaves -/

section Recalls

variable {log : List (Edit α)} {s t : List α} {a : α}

/-- Equal members are the same. -/
theorem Distinct.eq_of_beq [EquivBEq α] {b : α} (h : Distinct s) (ha : a ∈ s) (hb : b ∈ s)
    (hab : a == b) : a = b := by
  have : Std.Symm fun a b : α => (a == b) = false := ⟨fun a b hne => by rw [BEq.comm, hne]⟩
  by_contra hne
  cases hab.symm.trans (h.forall ha hb hne)

/-- No value comes from anywhere but the set and the edit. -/
theorem Edit.mem_of_mem_apply {e : Edit α} (h : a ∈ e.apply s) : a ∈ s ∨ a ∈ e.values := by
  cases e with
  | add b =>
    simp only [apply, insert_eq] at h
    split at h
    · exact .inl h
    · exact List.mem_append.1 h
  | remove b => exact .inl (List.mem_of_mem_eraseP h)
  | look b => exact .inl h
  | clear => cases h

/-- A value is found among the members that are left if it equals none that was taken out. -/
theorem find?_erase [EquivBEq α] (h : Distinct s) (a c : α) :
    (erase s a).find? (· == c) = if a == c then none else s.find? (· == c) := by
  induction s with
  | nil => simp [erase]
  | cons b s ih =>
    obtain ⟨hb, hs⟩ := List.pairwise_cons.1 h
    rw [erase_cons]
    split
    · next hba =>
      rw [List.find?_cons, BEq.congr_left hba]
      split
      · next hac =>
        refine List.find?_eq_none.2 fun d hd hdc => ?_
        have hbd : b == d := BEq.trans hba (BEq.trans hac (BEq.symm hdc))
        rw [hb d hd] at hbd
        cases hbd
      · next hac => rw [Bool.eq_false_iff.2 hac]
    · next hba =>
      rw [List.find?_cons, List.find?_cons, ih hs]
      split
      · next hbc =>
        have hac : ¬(a == c) = true := fun hac => hba (BEq.trans hbc (BEq.symm hac))
        rw [if_neg hac]
      · rfl

namespace Recalls

/-- Whether a value is there is told by the history. -/
theorem contains_eq (h : Recalls log s) (a : α) : contains s a = (origin? a log).isSome := by
  unfold contains
  rw [← List.isSome_find?, h.find?_eq, Option.isSome_map]

theorem found_eq (h : Recalls log s) (e : Edit α) : e.found s = e.recalled log := by
  cases e with
  | clear => rfl
  | _ a => exact h.contains_eq a

/-- No two members are equal. -/
theorem distinct [EquivBEq α] (h : Recalls log s) : Distinct s := by
  refine h.ordered.imp fun {a b} hab => Bool.eq_false_iff.2 fun heq => ?_
  obtain ⟨p, q, hp, hq, hlt⟩ := hab
  rw [origin?_congr heq, hq] at hp
  cases hp
  exact Nat.lt_irrefl _ hlt

theorem add [EquivBEq α] (h : Recalls log s) (a : α) : Recalls (.add a :: log) (insert s a) := by
  rw [insert_eq]
  split
  · next hthere =>
    rw [h.contains_eq] at hthere
    refine ⟨fun c => ?_, h.ordered.imp fun {b c} hbc => ?_⟩
    · rw [origin?_add_of_isSome hthere, h.find?_eq]
    · unfold OlderIn
      rwa [origin?_add_of_isSome hthere, origin?_add_of_isSome hthere]
  · next hnew =>
    have hnone : origin? a log = none := by
      rwa [h.contains_eq, Option.not_isSome_iff_eq_none] at hnew
    have hother : ∀ b ∈ s, (a == b) = false := fun b hb =>
      Bool.eq_false_iff.2 fun hab => hnew (List.any_eq_true.2 ⟨b, hb, BEq.symm hab⟩)
    refine ⟨fun c => ?_, List.pairwise_append.2
      ⟨h.ordered.imp_of_mem fun {b c} hb hc hbc => ?_, List.pairwise_singleton _ _,
        fun b hb c hc => ?_⟩⟩
    · rw [List.find?_append, h.find?_eq]
      by_cases hac : a == c
      · have hnone' : origin? c log = none := by rw [← origin?_congr hac, hnone]
        rw [origin?_add_of_beq hac hnone', hnone']
        simp [hac]
      · rw [origin?_add_of_ne (Bool.eq_false_iff.2 hac)]
        simp [hac]
    · unfold OlderIn
      rwa [origin?_add_of_ne (hother b hb), origin?_add_of_ne (hother c hc)]
    · rw [List.mem_singleton.1 hc]
      have hthere : (origin? b log).isSome := by
        rw [← h.contains_eq]
        exact List.any_eq_true.2 ⟨b, hb, BEq.rfl⟩
      obtain ⟨p, hp⟩ := Option.isSome_iff_exists.1 hthere
      exact ⟨p, (log.length, a), (origin?_add_of_ne (hother b hb)).trans hp,
        origin?_add_of_beq BEq.rfl hnone, origin?_lt hp⟩

theorem remove [EquivBEq α] (h : Recalls log s) (a : α) :
    Recalls (.remove a :: log) (erase s a) := by
  refine ⟨fun c => ?_, (h.ordered.sublist List.eraseP_sublist).imp_of_mem
    fun {b c} hb hc hbc => ?_⟩
  · rw [find?_erase h.distinct, h.find?_eq]
    by_cases hac : a == c <;> simp [origin?, hac]
  · have hother {d : α} (hd : d ∈ erase s a) : (a == d) = false := by
      rw [BEq.comm]
      exact ((mem_erase_iff h.distinct).1 hd).2
    unfold OlderIn
    rwa [origin?_remove_of_ne (hother hb), origin?_remove_of_ne (hother hc)]

/-- An edit leaves what the history tells that goes on with it. -/
theorem apply [EquivBEq α] (h : Recalls log s) (e : Edit α) : Recalls (e :: log) (e.apply s) := by
  cases e with
  | add a => exact h.add a
  | remove a => exact h.remove a
  | look a => exact ⟨h.find?_eq, h.ordered⟩
  | clear => exact ⟨fun _ => rfl, .nil⟩

/-- The members are the values that were added first among their equals. -/
theorem mem_iff [EquivBEq α] (h : Recalls log s) :
    a ∈ s ↔ (origin? a log).map Prod.snd = some a := by
  rw [← h.find?_eq]
  refine ⟨fun ha => ?_, List.mem_of_find?_eq_some⟩
  have hfound : (s.find? (· == a)).isSome := List.find?_isSome.2 ⟨a, ha, BEq.rfl⟩
  obtain ⟨b, hb⟩ := Option.isSome_iff_exists.1 hfound
  have hba : b == a := by simpa using List.find?_some hb
  rw [hb, h.distinct.eq_of_beq (List.mem_of_find?_eq_some hb) ha hba]

/-- A history leaves one set only. -/
theorem unique [EquivBEq α] (hs : Recalls log s) (ht : Recalls log t) : s = t := by
  have hperm : s.Perm t := (List.perm_ext_iff_of_nodup hs.distinct.nodup ht.distinct.nodup).2
    fun a => hs.mem_iff.trans ht.mem_iff.symm
  refine hperm.eq_of_pairwise (fun a b _ _ hab hba => ?_) hs.ordered ht.ordered
  obtain ⟨p, q, hp, hq, hlt⟩ := hab
  obtain ⟨q', p', hq', hp', hlt'⟩ := hba
  cases hp.symm.trans hp'
  cases hq.symm.trans hq'
  exact absurd hlt' (Nat.lt_asymm hlt)

end Recalls

/-- A set is what the additions of its members leave. -/
theorem recalls_additions [EquivBEq α] (h : Distinct s) : Recalls (additions s) s := by
  induction s using List.reverseRecOn with
  | nil => exact ⟨fun _ => rfl, .nil⟩
  | append_singleton s a ih =>
    obtain ⟨hold, -, hnew⟩ := List.pairwise_append.1 h
    have habsent : ¬contains s a = true := fun hthere => by
      obtain ⟨b, hb, hba⟩ := List.any_eq_true.1 hthere
      rw [hnew b hb a (List.mem_singleton_self a)] at hba
      cases hba
    have hadd := (ih hold).add a
    rw [insert_eq, if_neg habsent] at hadd
    simpa [additions] using hadd

end Recalls

end Membrane.Members
