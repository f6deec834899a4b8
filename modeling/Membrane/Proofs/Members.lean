import Membrane.Proofs.Dictionary

/-!
# Distinct members

Sets and the keys of dictionaries are compared by an equality that need not be equality of values.
Under it no two members are equal: what is inserted is compared with all that is there, and what is
removed was there once. So an entry is found under its own key, and a key that is erased is gone.

## Main definitions

* `Members.Distinct`: no two members are equal.

## Main results

* `Members.distinct_ofList`, `Dictionary.distinct_keys_ofEntries`: sets and the keys of dictionaries
  are made distinct.
* `Members.mem_erase_iff`: what is left when a member is removed.
* `Dictionary.get?_of_mem`: an entry is found under its key.
-/

namespace Membrane

variable {α : Type} {κ : Type}

namespace Members

variable [BEq α] {s : List α} {a b : α}

/-- No two members are equal. -/
def Distinct (s : List α) : Prop := s.Pairwise fun a b => (a == b) = false

/-- A present member is not inserted again, and a new one goes to the end. -/
theorem insert_eq (s : List α) (a : α) : insert s a = if contains s a then s else s ++ [a] := by
  induction s with
  | nil => rfl
  | cons b s ih =>
    by_cases h : b == a
    · simp [insert, contains, h]
    · have hcontains : contains (b :: s) a = contains s a := by simp [contains, h]
      rw [insert, if_neg h, ih, hcontains]
      split <;> rfl

theorem distinct_insert (h : Distinct s) : Distinct (insert s a) := by
  rw [insert_eq]
  split
  · exact h
  · next habsent =>
    refine List.pairwise_append.2 ⟨h, List.pairwise_singleton _ _, fun b hb c hc => ?_⟩
    rw [List.mem_singleton.1 hc]
    exact Bool.eq_false_iff.2 fun hba => habsent (List.any_eq_true.2 ⟨b, hb, hba⟩)

/-- What is present after a member is added is what was present, and whatever equals the member. -/
theorem contains_insert [EquivBEq α] (s : List α) (a b : α) :
    contains (insert s a) b = (contains s b || a == b) := by
  rw [insert_eq]
  split
  · next hpresent =>
    obtain ⟨c, hc, hca⟩ := List.any_eq_true.1 hpresent
    refine (Bool.or_eq_left_iff_imp.2 fun hab => ?_).symm
    exact List.any_eq_true.2 ⟨c, hc, BEq.trans hca hab⟩
  · simp [contains]

/-- A set is made of a list of values, each of which is inserted unless it is present. -/
theorem distinct_ofList (values : List α) : Distinct (ofList values) := by
  have hfold (s : List α) (h : Distinct s) : Distinct (values.foldl insert s) := by
    induction values generalizing s with
    | nil => exact h
    | cons a values ih => exact ih (insert s a) (distinct_insert h)
  exact hfold [] .nil

/-- A set is made of the values it is made of, where equal values are the same. -/
theorem mem_ofList [LawfulBEq α] {values : List α} : a ∈ ofList values ↔ a ∈ values := by
  have hfold (s : List α) : a ∈ values.foldl insert s ↔ a ∈ s ∨ a ∈ values := by
    induction values generalizing s with
    | nil => simp
    | cons b values ih =>
      rw [List.foldl_cons, ih, List.mem_cons, ← or_assoc, insert_eq]
      refine or_congr_left ?_
      split
      · next hpresent =>
        obtain ⟨c, hc, heq⟩ := List.any_eq_true.1 hpresent
        refine ⟨.inl, fun h => h.elim id fun hab => ?_⟩
        rwa [hab, ← beq_iff_eq.1 heq]
      · rw [List.mem_append, List.mem_singleton]
  rw [ofList, hfold, or_iff_right List.not_mem_nil]

/-- What is left when a member is removed is still distinct. -/
theorem distinct_erase (h : Distinct s) : Distinct (erase s a) := h.sublist List.eraseP_sublist

/-- Where equal members are the same, distinct members have no duplicates. -/
theorem Distinct.nodup [ReflBEq α] (h : Distinct s) : s.Nodup :=
  h.imp fun hab => ne_of_beq_false hab

theorem erase_cons (b : α) (s : List α) (a : α) :
    erase (b :: s) a = if b == a then s else b :: erase s a := by
  by_cases h : b == a <;> simp [erase, h]

/-- All members but the one that is removed are left. -/
theorem mem_erase_iff [EquivBEq α] (h : Distinct s) :
    b ∈ erase s a ↔ b ∈ s ∧ (b == a) = false := by
  induction s with
  | nil => simp [erase]
  | cons c s ih =>
    obtain ⟨hc, hs⟩ := List.pairwise_cons.1 h
    rw [erase_cons]
    by_cases hca : c == a
    · have hothers (hb : b ∈ s) : (b == a) = false := by
        rw [← BEq.congr_right hca, BEq.comm]
        exact hc b hb
      rw [if_pos hca, List.mem_cons]
      refine ⟨fun hb => ⟨.inr hb, hothers hb⟩, fun ⟨hb, hne⟩ => hb.resolve_left fun hbc => ?_⟩
      rw [hbc, hca] at hne
      cases hne
    · rw [if_neg hca, List.mem_cons, List.mem_cons, ih hs]
      refine ⟨fun hb => ?_, fun ⟨hb, hne⟩ => hb.imp_right fun hb => ⟨hb, hne⟩⟩
      obtain rfl | ⟨hb, hne⟩ := hb
      · exact ⟨.inl rfl, Bool.eq_false_iff.2 hca⟩
      · exact ⟨.inr hb, hne⟩

end Members

namespace Dictionary

variable [BEq κ] {d : Dictionary κ α} {k : κ} {v : α}

/-- An entry is found under its key. -/
theorem get?_of_mem [ReflBEq κ] (hkeys : Members.Distinct d.keys) (he : (k, v) ∈ d) :
    d.get? k = some v := by
  induction d with
  | nil => cases he
  | cons e d ih =>
    obtain ⟨hfirst, hrest⟩ := List.pairwise_cons.1 hkeys
    rw [get?_cons]
    obtain rfl | he := List.mem_cons.1 he
    · rw [if_pos BEq.rfl]
    · have hother : (e.1 == k) = false := hfirst k (List.mem_map_of_mem he)
      rw [hother, if_neg Bool.false_ne_true, ih hrest he]

/-- The keys of the entries that are left are the keys that are left. -/
theorem keys_erase_eq (d : Dictionary κ α) (k : κ) :
    (d.erase k).keys = Members.erase d.keys k := by
  unfold keys Members.erase
  rw [List.eraseP_map]
  rfl

/-- The keys after an entry is put are those there were and the new one. -/
theorem keys_put_eq (d : Dictionary κ α) (k : κ) (v : α) :
    (d.put k v).keys = Members.insert d.keys k := by
  induction d with
  | nil => rfl
  | cons e d ih =>
    rw [put_cons, keys_cons, Members.insert]
    split
    · rfl
    · rw [keys_cons, ih]

/-- What is put is read back. -/
theorem get?_put_self [ReflBEq κ] (d : Dictionary κ α) (k : κ) (v : α) :
    (d.put k v).get? k = some v := by
  induction d with
  | nil => simp [put, get?_cons]
  | cons e d ih =>
    by_cases h : e.1 == k
    · simp [put_cons, get?_cons, h]
    · simp [put_cons, get?_cons, h, ih]

/-- The keys present after an entry is put are those there were, and whatever equals the new one. -/
theorem contains_put [EquivBEq κ] (d : Dictionary κ α) (k k' : κ) (v : α) :
    (d.put k v).contains k' = (d.contains k' || k == k') := by
  have hkeys (d : Dictionary κ α) : d.contains k' = Members.contains d.keys k' := by
    simp [contains, Members.contains, keys, List.any_map, Function.comp_def]
  rw [hkeys, hkeys, keys_put_eq, Members.contains_insert]

theorem distinct_keys_put (h : Members.Distinct d.keys) : Members.Distinct (d.put k v).keys := by
  rw [keys_put_eq]
  exact Members.distinct_insert h

theorem distinct_keys_erase (h : Members.Distinct d.keys) : Members.Distinct (d.erase k).keys := by
  rw [keys_erase_eq]
  exact Members.distinct_erase h

/-- Dictionaries are made with distinct keys, and stay so when entries are put and erased. -/
theorem distinct_keys_ofEntries (entries : List (κ × α)) :
    Members.Distinct (ofEntries entries).keys := by
  have hfold (d : Dictionary κ α) (h : Members.Distinct d.keys) :
      Members.Distinct (entries.foldl (fun d e => d.put e.1 e.2) d).keys := by
    induction entries generalizing d with
    | nil => exact h
    | cons e entries ih => exact ih (d.put e.1 e.2) (distinct_keys_put h)
  exact hfold [] .nil

end Dictionary

end Membrane
