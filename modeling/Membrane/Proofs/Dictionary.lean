import Membrane.Data.Dictionary
import Mathlib.Data.List.Nodup

/-!
# Dictionaries with lawful keys

Where keys are equal just if they are the same, a dictionary without duplicate keys is a finite map
in an order: what is put is read back, a present key keeps its place when its value is replaced, a
new one goes to the end, and the others stay where they are when a key is erased.

## Main results

* `Dictionary.get?_put`, `Dictionary.get?_putNew`, `Dictionary.get?_erase`: reading after a change.
* `Dictionary.put_cases`, `Dictionary.erase_cases`: the entries after a change.
* `Dictionary.keys_put`, `Dictionary.keys_erase`: the keys after a change.
-/

namespace Membrane.Dictionary

variable {κ α : Type}

@[simp] theorem keys_nil : keys ([] : Dictionary κ α) = [] := rfl

@[simp] theorem keys_cons (e : κ × α) (d : Dictionary κ α) : keys (e :: d) = e.1 :: keys d := rfl

section Equations

variable [BEq κ]

@[simp] theorem get?_nil (k : κ) : get? ([] : Dictionary κ α) k = none := rfl

theorem get?_cons (e : κ × α) (d : Dictionary κ α) (k : κ) :
    get? (e :: d) k = if e.1 == k then some e.2 else get? d k :=
  rfl

theorem put_cons (e : κ × α) (d : Dictionary κ α) (k : κ) (v : α) :
    put (e :: d) k v = if e.1 == k then (e.1, v) :: d else e :: put d k v :=
  rfl

theorem erase_cons (e : κ × α) (d : Dictionary κ α) (k : κ) :
    erase (e :: d) k = if e.1 == k then d else e :: erase d k := by
  by_cases h : e.1 == k <;> simp [erase, h]

/-- A key is present just if a value is stored under it. -/
theorem contains_eq_isSome_get? (d : Dictionary κ α) (k : κ) :
    d.contains k = (d.get? k).isSome := by
  induction d with
  | nil => rfl
  | cons e d ih =>
    by_cases h : e.1 == k
    · simp [contains, get?_cons, h]
    · simpa [contains, get?_cons, h] using ih

theorem get?_append (d d' : Dictionary κ α) (k : κ) :
    get? (d ++ d') k = (d.get? k).or (d'.get? k) := by
  induction d with
  | nil => rfl
  | cons e d ih =>
    rw [List.cons_append, get?_cons, get?_cons, ih]
    split <;> rfl

/-- The values after an entry is put are some of those there were, and the new one. -/
theorem mem_or_eq_of_mem_values_put {d : Dictionary κ α} {k : κ} {u v : α}
    (h : u ∈ (d.put k v).values) :
    u ∈ d.values ∨ u = v := by
  induction d with
  | nil => exact .inr (List.mem_singleton.1 h)
  | cons e d ih =>
    rw [put_cons] at h
    split at h
    · obtain rfl | h := List.mem_cons.1 h
      · exact .inr rfl
      · exact .inl (List.mem_cons_of_mem _ h)
    · obtain rfl | h := List.mem_cons.1 h
      · exact .inl List.mem_cons_self
      · exact (ih h).imp_left (List.mem_cons_of_mem _)

theorem mem_or_eq_of_mem_values_putNew {d : Dictionary κ α} {k : κ} {u v : α}
    (h : u ∈ (d.putNew k v).values) : u ∈ d.values ∨ u = v := by
  unfold putNew at h
  split at h
  · exact .inl h
  · simpa [values] using h

theorem mem_values_of_get? {d : Dictionary κ α} {k : κ} {v : α} (h : d.get? k = some v) :
    v ∈ d.values := by
  induction d with
  | nil => cases h
  | cons e d ih =>
    rw [get?_cons] at h
    split at h
    · cases h
      exact List.mem_cons_self
    · exact List.mem_cons_of_mem _ (ih h)

/-- To put a value is to replace the one under the first key that is equal, or to add an entry at
the end if there is none. -/
theorem put_cases (d : Dictionary κ α) (k : κ) (v : α) :
    (∃ pre e post, d = pre ++ e :: post ∧ e.1 == k ∧ (∀ e' ∈ pre, ¬e'.1 == k) ∧
      d.put k v = pre ++ (e.1, v) :: post) ∨
    (∀ e ∈ d, ¬e.1 == k) ∧ d.put k v = d ++ [(k, v)] := by
  induction d with
  | nil => exact .inr ⟨nofun, rfl⟩
  | cons e d ih =>
    rw [put_cons]
    by_cases h : e.1 == k
    · exact .inl ⟨[], e, d, rfl, h, nofun, if_pos h⟩
    · rw [if_neg h]
      obtain ⟨pre, e', post, rfl, he', hpre, hput⟩ | ⟨hnone, hput⟩ := ih
      · refine .inl ⟨e :: pre, e', post, rfl, he', List.forall_mem_cons.2 ⟨h, hpre⟩, ?_⟩
        rw [hput]
        rfl
      · exact .inr ⟨List.forall_mem_cons.2 ⟨h, hnone⟩, by rw [hput]; rfl⟩

/-- To erase a key is to drop the first entry whose key is equal, if there is one. -/
theorem erase_cases (d : Dictionary κ α) (k : κ) :
    (∃ pre e post, d = pre ++ e :: post ∧ e.1 == k ∧ (∀ e' ∈ pre, ¬e'.1 == k) ∧
      d.erase k = pre ++ post) ∨
    (∀ e ∈ d, ¬e.1 == k) ∧ d.erase k = d := by
  by_cases h : ∃ e ∈ d, e.1 == k
  · obtain ⟨e, he, hk⟩ := h
    obtain ⟨e, pre, post, hpre, hk, rfl, herase⟩ :=
      List.exists_of_eraseP (p := fun e => e.1 == k) he hk
    exact .inl ⟨pre, e, post, rfl, hk, hpre, herase⟩
  · have hnone : ∀ e ∈ d, ¬e.1 == k := fun e he hk => h ⟨e, he, hk⟩
    exact .inr ⟨hnone, List.eraseP_of_forall_not hnone⟩

end Equations

variable [BEq κ] [LawfulBEq κ] {d : Dictionary κ α} {k k' : κ} {v : α}

/-- A value is stored under a key just if the key is present. -/
theorem isSome_get?_iff : (d.get? k).isSome ↔ k ∈ d.keys := by
  induction d with
  | nil => simp
  | cons e d ih =>
    by_cases h : e.1 = k
    · simp [get?_cons, h]
    · simp [get?_cons, h, ih, Ne.symm h]

/-- What is read is in an entry of its key. -/
theorem mem_of_get? (h : d.get? k = some v) : (k, v) ∈ d := by
  induction d with
  | nil => cases h
  | cons e d ih =>
    rw [get?_cons] at h
    split at h
    · next hkey =>
      cases h
      exact List.mem_cons.2 (.inl (Prod.ext (eq_of_beq hkey).symm rfl))
    · exact List.mem_cons_of_mem _ (ih h)

theorem get?_eq_none_iff : d.get? k = none ↔ k ∉ d.keys := by
  rw [← isSome_get?_iff, Option.not_isSome_iff_eq_none]

theorem contains_iff : d.contains k ↔ k ∈ d.keys := by
  simp [contains, keys]

/-- What is put is read back, and nothing else changes. -/
theorem get?_put : (d.put k v).get? k' = if k == k' then some v else d.get? k' := by
  induction d with
  | nil => rfl
  | cons e d ih =>
    by_cases h : e.1 = k
    · subst h
      simp only [put_cons, get?_cons, BEq.rfl, if_true]
      split <;> rfl
    · by_cases h' : e.1 = k'
      · subst h'
        simp [put_cons, get?_cons, h, Ne.symm h]
      · simp [put_cons, get?_cons, h, h', ih]

/-- An entry that is put in if its key is absent counts where there is none. -/
theorem get?_putNew :
    (d.putNew k v).get? k' = (d.get? k').or (if k == k' then some v else none) := by
  unfold putNew
  rw [contains_eq_isSome_get?]
  by_cases hk : k = k'
  · subst hk
    cases hd : d.get? k <;> simp [hd, get?_append, get?]
  · split <;> simp [hk, get?_append, get?]

/-- A present key stays where it is, and a new one goes to the end. -/
theorem keys_put : (d.put k v).keys = if k ∈ d.keys then d.keys else d.keys ++ [k] := by
  induction d with
  | nil => rfl
  | cons e d ih =>
    by_cases h : e.1 = k
    · simp [put_cons, h]
    · by_cases hmem : k ∈ keys d <;> simp [put_cons, h, ih, hmem, Ne.symm h]

/-- A new key goes to the end with its value. -/
theorem put_of_notMem (h : k ∉ d.keys) : d.put k v = d ++ [(k, v)] := by
  induction d with
  | nil => rfl
  | cons e d ih =>
    obtain ⟨hne, hnot⟩ := not_or.1 (mt List.mem_cons.2 h)
    simp [put_cons, Ne.symm hne, ih hnot]

/-- The other keys keep their order. -/
theorem keys_erase : (d.erase k).keys = d.keys.erase k := by
  induction d with
  | nil => rfl
  | cons e d ih =>
    by_cases h : e.1 = k
    · simp [erase_cons, h]
    · simp [erase_cons, h, ih]

/-- A key that is erased is gone, and nothing else changes. -/
theorem get?_erase (hkeys : d.keys.Nodup) :
    (d.erase k).get? k' = if k == k' then none else d.get? k' := by
  induction d with
  | nil => simp [erase]
  | cons e d ih =>
    obtain ⟨hnew, hrest⟩ := List.nodup_cons.1 hkeys
    by_cases h : e.1 = k
    · subst h
      by_cases h' : e.1 = k'
      · subst h'
        simp [erase_cons, get?_eq_none_iff.2 hnew]
      · simp [erase_cons, get?_cons, h']
    · by_cases h' : e.1 = k'
      · subst h'
        simp [erase_cons, get?_cons, h, Ne.symm h]
      · simp [erase_cons, get?_cons, h, h', ih hrest]

/-- To erase an absent key changes nothing. -/
theorem erase_of_notMem (h : k ∉ d.keys) : d.erase k = d := by
  refine List.eraseP_of_forall_not fun e he hek => h ?_
  rw [← eq_of_beq hek]
  exact List.mem_map_of_mem he

end Membrane.Dictionary
