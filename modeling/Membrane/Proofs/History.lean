import Membrane.Host.Value
import Membrane.Proofs.Dictionary
import Mathlib.Data.List.Induction

/-!
# Histories of writes

A dictionary from text to values in order of insertion is what a history of writes leaves. A key is
present if it was put and not dropped since, its value is the one put last, and it has its place
from the time it was first put since it was last dropped.

## Main definitions

* `MapWrite`, `MapWrite.value?`, `MapWrite.born?`: histories of writes and what they tell of a key.
* `MapWrite.BornBefore`: the order of the keys.
* `Records`: that a dictionary is what a history leaves.

## Main results

* `Records.put`, `Records.drop`: one write.
* `Records.entries`: a dictionary is what its own entries leave.
-/

namespace Membrane

open Host (Value)

/-- A write to a map: a value is put under a key, or a key is dropped. -/
inductive MapWrite where
  | put (key : String) (value : Value)
  | drop (key : String)

namespace MapWrite

/-- The key that is written. -/
def key : MapWrite → String
  | put k _ | drop k => k

/-- What was last put under a key, if it was not dropped since. The latest write comes first. -/
def value? (k : String) : List MapWrite → Option Value
  | [] => none
  | put k' v :: log => if k' = k then some v else value? k log
  | drop k' :: log => if k' = k then none else value? k log

/-- When a key was first put since it was last dropped, by the number of writes before. -/
def born? (k : String) : List MapWrite → Option Nat
  | [] => none
  | put k' _ :: log => if k' = k then some ((born? k log).getD log.length) else born? k log
  | drop k' :: log => if k' = k then none else born? k log

/-- Of two keys that are present, one has been present longer. -/
def BornBefore (log : List MapWrite) (a b : String) : Prop :=
  ∃ i j, born? a log = some i ∧ born? b log = some j ∧ i < j

/-- The entries of a dictionary as a history: each was put at its turn. -/
def entriesOf (d : Dictionary String Value) : List MapWrite :=
  (d.map fun e => .put e.1 e.2).reverse

variable {k k' : String} {v : Value} {log : List MapWrite}

theorem value?_put : value? k' (.put k v :: log) = if k = k' then some v else value? k' log := rfl

theorem value?_drop : value? k' (.drop k :: log) = if k = k' then none else value? k' log := rfl

/-- A write to another key tells nothing of a key. -/
theorem value?_cons_of_ne {e : MapWrite} (h : e.key ≠ k) : value? k (e :: log) = value? k log := by
  cases e <;> exact if_neg h

theorem born?_cons_of_ne {e : MapWrite} (h : e.key ≠ k) : born? k (e :: log) = born? k log := by
  cases e <;> exact if_neg h

theorem born?_put_self : born? k (.put k v :: log) = some ((born? k log).getD log.length) :=
  if_pos rfl

theorem born?_drop_self : born? k (.drop k :: log) = none := if_pos rfl

theorem isSome_born?_iff : (born? k log).isSome ↔ (value? k log).isSome := by
  induction log with
  | nil => rfl
  | cons e log ih =>
    by_cases h : e.key = k
    · subst h
      cases e <;> simp [key, born?, value?]
    · rw [born?_cons_of_ne h, value?_cons_of_ne h, ih]

theorem born?_lt {i : Nat} (h : born? k log = some i) : i < log.length := by
  induction log generalizing i with
  | nil => cases h
  | cons e log ih =>
    rw [List.length_cons]
    by_cases hk : e.key = k
    · subst hk
      cases e with
      | drop k => simp [key, born?_drop_self] at h
      | put k v =>
        obtain rfl : (born? k log).getD log.length = i :=
          Option.some.inj (born?_put_self.symm.trans h)
        cases hborn : born? k log with
        | none => simp
        | some j => exact Nat.lt_succ_of_lt (ih hborn)
    · rw [born?_cons_of_ne hk] at h
      exact Nat.lt_succ_of_lt (ih h)

/-- A key that is put again has been present as long as before. -/
theorem born?_put_of_some {i : Nat} (h : born? k' log = some i) :
    born? k' (.put k v :: log) = some i := by
  by_cases hk : k = k'
  · subst hk
    rw [born?_put_self, h, Option.getD_some]
  · rw [born?_cons_of_ne (e := .put k v) hk, h]

theorem BornBefore.put {a b : String} (h : BornBefore log a b) :
    BornBefore (.put k v :: log) a b := by
  obtain ⟨i, j, ha, hb, hij⟩ := h
  exact ⟨i, j, born?_put_of_some ha, born?_put_of_some hb, hij⟩

theorem BornBefore.drop {a b : String} (h : BornBefore log a b) (ha : k ≠ a) (hb : k ≠ b) :
    BornBefore (.drop k :: log) a b := by
  obtain ⟨i, j, hi, hj, hij⟩ := h
  have hi' : born? a (.drop k :: log) = some i := by rw [born?_cons_of_ne (e := .drop k) ha, hi]
  have hj' : born? b (.drop k :: log) = some j := by rw [born?_cons_of_ne (e := .drop k) hb, hj]
  exact ⟨i, j, hi', hj', hij⟩

end MapWrite

open MapWrite (value? born? BornBefore entriesOf)

/-- A dictionary is what a history of writes leaves. -/
structure Records (log : List MapWrite) (d : Dictionary String Value) : Prop where
  /-- Under each key the value put last is stored. -/
  get?_eq : ∀ k, d.get? k = value? k log
  /-- The keys are ordered by how long they have been present. -/
  ordered : d.keys.Pairwise (BornBefore log)

namespace Records

variable {log : List MapWrite} {d : Dictionary String Value} {k : String} {v : Value}

theorem mem_keys_iff (h : Records log d) : k ∈ d.keys ↔ (value? k log).isSome := by
  rw [← h.get?_eq, Dictionary.isSome_get?_iff]

theorem nodup (h : Records log d) : d.keys.Nodup := by
  refine h.ordered.imp fun {a b} hab => ?_
  rintro rfl
  obtain ⟨i, j, hi, hj, hij⟩ := hab
  rw [hi] at hj
  cases hj
  exact Nat.lt_irrefl i hij

/-- A key that is present is older than one that is put now. -/
theorem bornBefore_of_new {a : String} (h : Records log d) (ha : a ∈ d.keys) (hk : k ∉ d.keys) :
    BornBefore (.put k v :: log) a k := by
  obtain ⟨i, hi⟩ := Option.isSome_iff_exists.1
    (MapWrite.isSome_born?_iff.2 (h.mem_keys_iff.1 ha))
  have hnew : born? k log = none := by
    rwa [h.mem_keys_iff, ← MapWrite.isSome_born?_iff, Option.not_isSome_iff_eq_none] at hk
  have hborn : born? k (.put k v :: log) = some log.length := by
    rw [MapWrite.born?_put_self, hnew, Option.getD_none]
  exact ⟨i, log.length, MapWrite.born?_put_of_some hi, hborn, MapWrite.born?_lt hi⟩

theorem put (h : Records log d) : Records (.put k v :: log) (d.put k v) where
  get?_eq k' := by simp [Dictionary.get?_put, MapWrite.value?_put, h.get?_eq]
  ordered := by
    have hold : d.keys.Pairwise (BornBefore (.put k v :: log)) := h.ordered.imp BornBefore.put
    rw [Dictionary.keys_put]
    split
    · exact hold
    · next hk =>
      refine List.pairwise_append.2 ⟨hold, List.pairwise_singleton _ _, fun a ha b hb => ?_⟩
      rw [List.mem_singleton.1 hb]
      exact h.bornBefore_of_new ha hk

theorem drop (h : Records log d) : Records (.drop k :: log) (d.erase k) where
  get?_eq k' := by simp [Dictionary.get?_erase h.nodup, MapWrite.value?_drop, h.get?_eq]
  ordered := by
    rw [Dictionary.keys_erase]
    have hne {a : String} (ha : a ∈ d.keys.erase k) : k ≠ a :=
      fun hka => (h.nodup.mem_erase_iff.1 ha).1 hka.symm
    exact (h.ordered.sublist List.erase_sublist).imp_of_mem fun ha hb hab =>
      hab.drop (hne ha) (hne hb)

/-- A dictionary is what its own entries leave. -/
theorem entries (hkeys : d.keys.Nodup) : Records (entriesOf d) d := by
  induction d using List.reverseRecOn with
  | nil => exact ⟨fun _ => rfl, .nil⟩
  | append_singleton d e ih =>
    have hsplit : (Dictionary.keys d ++ [e.1]).Nodup := by simpa [Dictionary.keys] using hkeys
    obtain ⟨hold, -, hnew⟩ := List.nodup_append.1 hsplit
    have hput := (ih hold).put (k := e.1) (v := e.2)
    rw [Dictionary.put_of_notMem fun h => hnew e.1 h e.1 (List.mem_singleton_self _) rfl] at hput
    simpa [entriesOf] using hput

end Records

end Membrane
