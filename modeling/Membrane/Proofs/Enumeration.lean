import Membrane.Proofs.Captures
import Membrane.Proofs.Equality
import Membrane.Proofs.MapTraps
import Membrane.Proofs.Resolution
import Std.Data.String.ToInt

/-!
# What is listed and what is there

Maps list their keys and sets their members, as texts and without null. Lists and arrays list their
indices, and anything else the keys captured once. Values of different types can have one text, and
what is listed is a text: two keys that share it are both listed, and asking for the text finds the
key that is the text, if there is one. A map or a set that holds a key without a text lists nothing:
it does not come to an end.

## Main definitions

* `World.keys?`: the keys of a map and the members of a set.

## Main results

* `World.hostText_inj`: the text of a primitive tells it from the others of its type, but for
  floating-point numbers.
* `nodup_ownKeys_iff`: when no key is listed twice.
* `listed_are_there`: what is listed, and what is found under it.
-/

namespace Membrane

open Host (Value Primitive)

/-- The keys of a map or the members of a set. -/
def World.keys? (w : World) (target : Value) : Option (List Value) :=
  match w.data? target with
  | some (.map entries) => some entries.keys
  | some (.set members) => some members
  | _ => none

/-- Only maps and sets have keys. -/
theorem World.data?_of_keys? {w : World} {target : Value} {keys : List Value}
    (hkeys : w.keys? target = some keys) :
    (∃ entries, w.data? target = some (.map entries) ∧ entries.keys = keys) ∨
      w.data? target = some (.set keys) := by
  unfold keys? at hkeys
  split at hkeys
  · next entries hdata => exact .inl ⟨entries, hdata, Option.some.inj hkeys⟩
  · next members hdata => exact .inr (Option.some.inj hkeys ▸ hdata)
  · cases hkeys

/-! ### Texts of keys -/

theorem boolText_inj {a b : Bool} :
    (if a then "true" else "false") = (if b then "true" else "false") ↔ a = b := by
  cases a <;> cases b <;> simp

section Texts

variable {w : World} {keys : List Value} {a b : Value} {p : Primitive} {k : String}

/-- The text of a primitive tells it from the others of its type, but for floating-point numbers. -/
theorem World.hostText_inj (ha : a.primitive? = some p) (hb : b.primitive? = some p)
    (hfloat : p ≠ .float) (hdouble : p ≠ .double) (htext : w.hostText a = w.hostText b) :
    a = b := by
  cases a <;> cases ha <;> cases b <;> cases hb <;>
    simp_all [World.hostText, World.hostText?, World.writeHost, World.writeTarget, boolText_inj,
      Int.repr_inj, Int8.toInt_inj, Int16.toInt_inj, Int32.toInt_inj, Int64.toInt_inj]

theorem mem_keyTexts_iff :
    k ∈ w.keyTexts keys ↔ ∃ key ∈ keys, key.isNull = false ∧ w.hostText key = k := by
  simp [World.keyTexts, and_assoc]

/-- No text is listed twice just if no two of the keys share theirs. -/
theorem nodup_keyTexts_iff : (w.keyTexts keys).Nodup ↔
    (keys.filter (!·.isNull)).Pairwise fun a b => w.hostText a ≠ w.hostText b :=
  List.pairwise_map

/-- Keys of one type have different texts, but for floating-point numbers. -/
theorem nodup_keyTexts_of_primitive (hkeys : Members.Distinct keys)
    (htype : ∀ key ∈ keys, key.isNull = false → key.primitive? = some p)
    (hfloat : p ≠ .float) (hdouble : p ≠ .double) : (w.keyTexts keys).Nodup := by
  have hprimitive {key : Value} (hkey : key ∈ keys.filter (!·.isNull)) :
      key.primitive? = some p := by
    obtain ⟨hmem, hnull⟩ := List.mem_filter.1 hkey
    exact htype key hmem (by simpa using hnull)
  refine nodup_keyTexts_iff.2 ((hkeys.filter _).imp_of_mem fun ha hb hab htext => ?_)
  exact ne_of_beq_false hab
    (World.hostText_inj (hprimitive ha) (hprimitive hb) hfloat hdouble htext)

/-- Indices have different texts. -/
theorem nodup_indexTexts (n : Nat) : ((List.range n).map fun i => toString i).Nodup :=
  List.nodup_range.map fun _ _ htext => Nat.repr_inj.1 htext

end Texts

/-! ### What is listed -/

section Listing

variable {r : Ref .handler} {h : Handler} {w : World} {keys : List Value}

/-- Maps list their keys and sets their members. -/
theorem ownKeys_eq_keyTexts (hr : w.handlers.get? r = some h)
    (hkeys : w.keys? h.target = some keys) : Run.ownKeys r w = Run.keyTexts keys w := by
  unfold Run.ownKeys
  rw [Run.get_bind, hr, Option.bind_some]
  obtain ⟨entries, hdata, rfl⟩ | hdata := World.data?_of_keys? hkeys
  · rw [hdata]
  · rw [hdata]

/-- The texts of keys are listed, if all have one. -/
theorem ownKeys_of_keys? (hr : w.handlers.get? r = some h) (hkeys : w.keys? h.target = some keys)
    (htexts : ∀ key ∈ keys, w.HasText key) : Run.ownKeys r w = .ok (w.keyTexts keys) w :=
  (ownKeys_eq_keyTexts hr hkeys).trans (Run.keyTexts_of_forall htexts)

/-- Nothing is ever listed if a key has no text. -/
theorem ownKeys_exhausted (hr : w.handlers.get? r = some h) (hkeys : w.keys? h.target = some keys)
    (hendless : ∃ key ∈ keys, ¬w.HasText key) : Run.ownKeys r w = .error .exhausted w :=
  (ownKeys_eq_keyTexts hr hkeys).trans (Run.keyTexts_of_exists hendless)

/-- What is neither a map nor a set captures the names of members. -/
theorem capturedKeys_of_keys?_eq_none (hkeys : w.keys? h.target = none) :
    Run.capturedKeys h w =
      .ok (Members.ofList (h.descriptor.fields.keys ++ h.descriptor.getterProperties)) w := by
  unfold World.keys? at hkeys
  unfold Run.capturedKeys
  rw [Run.get_bind]
  cases hdata : w.data? h.target with
  | none => rfl
  | some data =>
    cases data with
    | map entries => simp [hdata] at hkeys
    | set members => simp [hdata] at hkeys
    | _ => rfl

/-- It gives those it has captured, and captures them now if it has not yet. -/
theorem uniqueKeys_of_keys?_eq_none (hr : w.handlers.get? r = some h)
    (hkeys : w.keys? h.target = none) : ∃ w',
    Run.uniqueKeys r w = .ok (h.uniqueKeys.getD
      (Members.ofList (h.descriptor.fields.keys ++ h.descriptor.getterProperties))) w' ∧
    w'.objects = w.objects := by
  unfold Run.uniqueKeys
  rw [Run.get_bind, hr]
  cases hcaptured : h.uniqueKeys with
  | some captured =>
    simp only [hcaptured]
    exact ⟨_, rfl, rfl⟩
  | none =>
    simp only [hcaptured]
    exact ⟨_, Run.bind_of_ok (capturedKeys_of_keys?_eq_none hkeys), rfl⟩

/-- Everything but maps and sets lists different texts. -/
theorem ownKeys_of_keys?_eq_none (hr : w.handlers.get? r = some h)
    (hkeys : w.keys? h.target = none) (honce : w.CapturesOnce) :
    ∃ listed w', Run.ownKeys r w = .ok listed w' ∧ listed.Nodup ∧ w'.CapturesOnce := by
  obtain ⟨w', hunique, -⟩ := uniqueKeys_of_keys?_eq_none hr hkeys
  have hcaptured : ∃ listed w', Run.uniqueKeys r w = .ok listed w' ∧ listed.Nodup ∧
      w'.CapturesOnce := ⟨_, w', hunique, honce.of_uniqueKeys hunique⟩
  unfold World.keys? at hkeys
  unfold Run.ownKeys
  rw [Run.get_bind, hr, Option.bind_some]
  cases hdata : w.data? h.target with
  | none => exact hcaptured
  | some data =>
    cases data with
    | map entries => simp [hdata] at hkeys
    | set members => simp [hdata] at hkeys
    | list items => exact ⟨_, _, rfl, nodup_indexTexts _, honce⟩
    | array items => exact ⟨_, _, rfl, nodup_indexTexts _, honce⟩
    | _ => exact hcaptured

/-- What is listed has no duplicates unless two keys of a map or two members of a set have one text.
Lists and arrays list their indices, and all else the keys captured once, be it this time or before.
Maps and sets whose keys have texts list that of each key that is not null, and list one twice just
if two of the keys share it. Keys of one primitive type never do, floating-point numbers apart. -/
theorem nodup_ownKeys_iff (hr : w.handlers.get? r = some h) (honce : w.CapturesOnce)
    (htexts : ∀ keys, w.keys? h.target = some keys → ∀ key ∈ keys, w.HasText key) :
    ∃ listed w', Run.ownKeys r w = .ok listed w' ∧ w'.CapturesOnce ∧
      (w.keys? h.target = none → listed.Nodup) ∧
      ∀ keys, w.keys? h.target = some keys →
        (listed.Nodup ↔
          (keys.filter (!·.isNull)).Pairwise fun a b => w.hostText a ≠ w.hostText b) ∧
        ∀ p : Primitive, p ≠ .float → p ≠ .double → Members.Distinct keys →
          (∀ key ∈ keys, key.isNull = false → key.primitive? = some p) → listed.Nodup := by
  cases hkeys : w.keys? h.target with
  | none =>
    obtain ⟨listed, w', hrun, hnodup, honce'⟩ := ownKeys_of_keys?_eq_none hr hkeys honce
    exact ⟨listed, w', hrun, honce', fun _ => hnodup, nofun⟩
  | some keys =>
    refine ⟨_, w, ownKeys_of_keys? hr hkeys (htexts keys hkeys), honce, nofun,
      fun keys' hkeys' => ?_⟩
    cases hkeys'
    exact ⟨nodup_keyTexts_iff, fun p hfloat hdouble hdistinct htype =>
      nodup_keyTexts_of_primitive hdistinct htype hfloat hdouble⟩

end Listing

/-- The world with a proxied map of some entries and nothing else. -/
def World.ofEntries (entries : Dictionary Value Value) : World :=
  { objects := ({} : Store .object Host.Object).alloc (.new Host.Library.map (.map entries))
    handlers := ({} : Store .handler Handler).alloc sizeMapHandler }

theorem World.capturesOnce_ofEntries (entries : Dictionary Value Value) :
    (World.ofEntries entries).CapturesOnce := by
  intro r h hr captured hcaptured
  obtain hr | rfl := Store.get?_or_eq_of_alloc hr
  · simp [Store.get?] at hr
  · cases hcaptured

/-- An integer and its digits are different keys with one text, which is listed twice. -/
theorem nodup_ownKeys_iff_digits :
    ∃ listed w, Run.ownKeys ⟨0⟩ (World.ofEntries [(.integer 1, .null), (.string "1", .null)]) =
      .ok listed w ∧ ¬listed.Nodup := by
  obtain ⟨listed, w, hrun, -, -, hkeys⟩ := nodup_ownKeys_iff (r := ⟨0⟩) (h := sizeMapHandler) rfl
    (World.capturesOnce_ofEntries [(.integer 1, .null), (.string "1", .null)])
    fun _ hkeys => Option.some.inj hkeys ▸ by decide
  refine ⟨listed, w, hrun, fun hnodup => ?_⟩
  have hpairwise := (hkeys _ rfl).1.1 hnodup
  exact List.rel_of_pairwise_cons hpairwise List.mem_cons_self rfl

/-! ### What is listed is there -/

namespace World

variable {w : World} {target v : Value} {keys : List Value} {entries : Dictionary Value Value}

theorem keys?_of_map? (hmap : w.map? target = some entries) :
    w.keys? target = some entries.keys := by
  simp [keys?, map?_eq_some_iff.1 hmap]

/-- Maps and sets hold the values that equal one of their keys. -/
theorem contains_of_keys? (hkeys : w.keys? target = some keys) :
    w.contains target v = keys.any (· == v) := by
  obtain ⟨entries, hdata, rfl⟩ | hdata := data?_of_keys? hkeys
  · simp [contains, hdata, Dictionary.contains, Dictionary.keys, List.any_map, Function.comp_def]
  · simp [contains, hdata, Members.contains]

/-- Maps and sets have no items. -/
theorem hasIndex_of_keys? (hkeys : w.keys? target = some keys) (index : Option Nat) :
    w.hasIndex target index = false := by
  obtain ⟨entries, hdata, rfl⟩ | hdata := data?_of_keys? hkeys <;> simp [hasIndex, hdata]

end World

/-- Where entries are dropped from a map, what had a text still has one. -/
theorem World.HasText.changeEntries {w : World} {target v : Value}
    {change : Dictionary Value Value → Dictionary Value Value} (hchange : ∀ d, change d ⊆ d)
    (h : w.HasText v) : (w.changeEntries target change).HasText v := by
  have hdata (data : Host.Data) (c' : Collection)
      (hc' : (data.changeEntries change).collection? = some c') :
      ∃ c, data.collection? = some c ∧ c'.elements ⊆ c.elements := by
    cases data with
    | map entries =>
      cases hc'
      exact ⟨_, rfl, List.map_subset _ (hchange entries)⟩
    | _ => exact ⟨c', hc', List.Subset.refl _⟩
  cases target with
  | object r =>
    have hobjects (s : Ref .object) (o' : Host.Object)
        (ho' : (w.changeEntries (.object r) change).objects.get? s = some o') :
        ∃ o, w.objects.get? s = some o ∧ ∀ c', o'.data.collection? = some c' →
          ∃ c, o.data.collection? = some c ∧ c'.elements ⊆ c.elements := by
      by_cases hrs : r = s
      · subst hrs
        rw [World.changeEntries, World.changeData, Store.get?_modify_self] at ho'
        obtain ⟨o, ho, rfl⟩ := Option.map_eq_some_iff.1 ho'
        exact ⟨o, ho, hdata o.data⟩
      · rw [World.changeEntries, World.changeData, Store.get?_modify_of_ne _ _ hrs] at ho'
        exact ⟨o', ho', fun c' hc' => ⟨c', hc', List.Subset.refl _⟩⟩
    have hdepth : (w.changeEntries (.object r) change).depth = w.depth :=
      congrArg (fun n => (n + 1) * (w.arrays.size + 1) + 1) Array.size_modify
    unfold World.HasText World.hostText? at h ⊢
    rw [hdepth]
    exact World.isSome_write_of_subset hobjects rfl rfl h
  | _ => exact h

section Presence

variable {eng : Engine} {r : Ref .handler} {h : Handler} {w : World} {keys : List Value}
  {k : String}
  {entries : Dictionary Value Value}

/-- A value that equals a key is said to be there. -/
theorem hasProperty_of_mem_keys {property : Script.Value} {v key : Value}
    (hkeys : w.keys? h.target = some keys) (hkey : key ∈ keys)
    (hvalue : eng.toHost property w = .ok v w) (hv : key == v) :
    eng.hasProperty h property w = .ok true w := by
  have hcontains : w.contains h.target v = true := by
    rw [World.contains_of_keys? hkeys]
    exact List.any_eq_true.2 ⟨key, hkey, hv⟩
  rw [Engine.hasProperty_eq_ok hvalue, hcontains]
  rfl

/-- A text is said to be there just if it is a key, a member or a prototype function. -/
theorem hasProperty_string (hkeys : w.keys? h.target = some keys)
    (hcross : eng.refusesScript w (.string k) = none) :
    ∃ there, eng.hasProperty h (.string k) w = .ok there w ∧
      (there ↔ .string k ∈ keys ∨ h.hasMember (.string k) ∨ h.hasPrototype (.string k)) := by
  refine ⟨_, Engine.hasProperty_eq_ok (Engine.toHost_eq_carryToHost hcross), ?_⟩
  rw [World.hasIndex_of_keys? hkeys, World.contains_of_keys? hkeys]
  simp [beq_string_iff, or_assoc]

/-- After a deletion a text is listed if another key has it. -/
theorem ownKeys_deleteProperty (hr : w.handlers.get? r = some h)
    (hmap : w.map? h.target = some entries) (hdistinct : Members.Distinct entries.keys)
    (htexts : ∀ key ∈ entries.keys, w.HasText key) :
    ∃ listed w', Run.deleteProperty h.target (.string k) w = .ok true w' ∧
      Run.ownKeys r w' = .ok listed w' ∧
      (k ∈ listed ↔ ∃ key ∈ entries.keys, key.isNull = false ∧ key ≠ .string k ∧
        w'.hostText key = k) := by
  have hmap' := World.map?_changeEntries hmap (·.erase (.string k))
  have hr' : (w.changeEntries h.target (·.erase (.string k))).handlers.get? r = some h := by
    rw [MapTrap.handlers_changeEntries, hr]
  have htexts' : ∀ key ∈ (entries.erase (.string k)).keys,
      (w.changeEntries h.target (·.erase (.string k))).HasText key := by
    intro key hkey
    have hsubset (d : Dictionary Value Value) : d.erase (.string k) ⊆ d := List.eraseP_subset
    exact (htexts key (List.map_subset _ (hsubset entries) hkey)).changeEntries hsubset
  refine ⟨_, _, deleteProperty_of_map hmap,
    ownKeys_of_keys? hr' (World.keys?_of_map? hmap') htexts', ?_⟩
  rw [mem_keyTexts_iff, Dictionary.keys_erase_eq]
  have hleft (key : Value) : key ∈ Members.erase entries.keys (.string k) ↔
      key ∈ entries.keys ∧ key ≠ .string k := by
    rw [Members.mem_erase_iff hdistinct, ← Bool.not_eq_true, beq_string_iff]
  constructor
  · rintro ⟨key, hkey, hnull, htext⟩
    obtain ⟨hkey, hne⟩ := (hleft key).1 hkey
    exact ⟨key, hkey, hnull, hne, htext⟩
  · rintro ⟨key, hkey, hnull, hne, htext⟩
    exact ⟨key, (hleft key).2 ⟨hkey, hne⟩, hnull, htext⟩

/-- What maps and sets list whose keys have texts is there. The text of each key that is not null is
listed, and a key is said to be there by a script value that stands for it on the host. A text that
is listed is said to be there just if it is itself a key, or a member or a prototype function goes
by it. In a map, a text that is a key reads as the value of its entry, and a deletion takes its
entry away, so that it is listed no longer unless another key has the same text. -/
theorem listed_are_there (eng : Engine) (hr : w.handlers.get? r = some h)
    (hkeys : w.keys? h.target = some keys) (hdistinct : Members.Distinct keys)
    (htexts : ∀ key ∈ keys, w.HasText key) :
    ∃ listed, Run.ownKeys r w = .ok listed w ∧
      (∀ key ∈ keys, key.isNull = false → w.hostText key ∈ listed ∧
        ∀ property v, eng.toHost property w = .ok v w → key == v →
          eng.hasProperty h property w = .ok true w) ∧
      (∀ k ∈ listed, eng.refusesScript w (.string k) = none →
        ∃ there, eng.hasProperty h (.string k) w = .ok there w ∧
          (there ↔ .string k ∈ keys ∨ h.hasMember (.string k) ∨ h.hasPrototype (.string k))) ∧
      ∀ entries, w.map? h.target = some entries → ∀ k, .string k ∈ keys →
        k ∈ listed ∧
        (∃ u, (.string k, u) ∈ entries ∧
          eng.getProperty h (.string k) w = eng.toScript u w) ∧
        ∃ listed' w', Run.deleteProperty h.target (.string k) w = .ok true w' ∧
          Run.ownKeys r w' = .ok listed' w' ∧
          (k ∈ listed' ↔ ∃ key ∈ keys, key.isNull = false ∧ key ≠ .string k ∧
            w'.hostText key = k) := by
  refine ⟨_, ownKeys_of_keys? hr hkeys htexts, fun key hkey hnull => ⟨?_, ?_⟩, fun k _ => ?_, ?_⟩
  · exact mem_keyTexts_iff.2 ⟨key, hkey, hnull, rfl⟩
  · exact fun property v => hasProperty_of_mem_keys hkeys hkey
  · exact hasProperty_string hkeys
  · intro entries hmap k hk
    have heq : entries.keys = keys := Option.some.inj ((World.keys?_of_map? hmap).symm.trans hkeys)
    subst heq
    obtain ⟨e, he, hek⟩ := List.mem_map.1 hk
    have hentry : (.string k, e.2) ∈ entries := by
      rw [← hek]
      exact he
    refine ⟨mem_keyTexts_iff.2 ⟨_, hk, rfl, rfl⟩, ⟨e.2, hentry, ?_⟩, ?_⟩
    · exact getProperty_of_get? hmap (Dictionary.get?_of_mem hdistinct hentry)
    · exact ownKeys_deleteProperty hr hmap hdistinct htexts

end Presence

/-- A text that is a key is there, reads as its own value, and stays listed when it is deleted if an
integer has the same digits. The integer is there as an integer. -/
theorem listed_are_there_digits :
    ∃ w, w = World.ofEntries [(.integer 1, .string "a"), (.string "1", .string "b")] ∧
      (Engine.direct Config.standard).hasProperty sizeMapHandler (.integer 1) w = .ok true w ∧
      (Engine.direct Config.standard).getProperty sizeMapHandler (.string "1") w =
        .ok (.string "b") w ∧
      ∃ listed w', Run.deleteProperty sizeMapHandler.target (.string "1") w = .ok true w' ∧
        Run.ownKeys ⟨0⟩ w' = .ok listed w' ∧ "1" ∈ listed := by
  refine ⟨_, rfl, ?_⟩
  have hdistinct : Members.Distinct [Value.integer 1, .string "1"] := by
    unfold Members.Distinct
    decide
  obtain ⟨listed, -, hkeys, -, htexts⟩ := listed_are_there (r := ⟨0⟩) (h := sizeMapHandler)
    (w := World.ofEntries [(.integer 1, .string "a"), (.string "1", .string "b")])
    (Engine.direct Config.standard) rfl rfl hdistinct (by decide)
  obtain ⟨-, ⟨u, hu, hget⟩, listed', w', hdelete, hlisted', hstays⟩ :=
    htexts _ rfl "1" (.tail _ (.head _))
  have hthere := (hkeys (.integer 1) (.head _) rfl).2 (.integer 1) (.integer 1) rfl rfl
  obtain rfl : u = .string "b" := by simpa using hu
  refine ⟨hthere, hget, listed', w', hdelete, hlisted', hstays.2 ?_⟩
  exact ⟨.integer 1, .head _, rfl, nofun, rfl⟩

/-- A text that is listed need not be there: an integer is a key by its own, not by its digits. -/
theorem not_listed_are_there :
    ¬ ∀ (r : Ref .handler) (h : Handler) (w : World) (keys : List Value) (listed : List String),
      w.handlers.get? r = some h → w.keys? h.target = some keys → Members.Distinct keys →
      (∀ key ∈ keys, key.isNull = false) → Run.ownKeys r w = .ok listed w →
      ∀ k ∈ listed, (Engine.direct Config.standard).hasProperty h (.string k) w = .ok true w := by
  intro hall
  have htrue := hall ⟨0⟩ sizeMapHandler (World.ofEntries [(.integer 1, .null)]) [.integer 1] ["1"]
    rfl rfl (List.pairwise_singleton _ _) (by simp [Value.isNull]) rfl "1" (.head _)
  have hfalse : (Engine.direct Config.standard).hasProperty sizeMapHandler (.string "1")
      (World.ofEntries [(.integer 1, .null)]) = .ok false (World.ofEntries [(.integer 1, .null)]) :=
    rfl
  rw [hfalse] at htrue
  cases htrue

end Membrane
