import Membrane.Proofs.Crossing
import Membrane.Proofs.History
import Membrane.Proofs.Resolution

/-!
# Map proxies

A map whose keys are texts shows its entries as properties. Whatever the keys are, digits and names
of methods among them, the traps that write, delete, read, ask for and list properties agree on one
dictionary in order of insertion, which is what the history of writes leaves.

## Main definitions

* `textKeyed`: a dictionary with text keys as a host map stores it.
* `World.keyTexts`: the texts of keys.
* `MapTrap`, `MapTrap.writes`, `MapTrap.runAll`: traps that write and delete properties.

## Main results

* `Run.keyTexts_of_forall`, `Run.keyTexts_of_exists`: listing keys, which does not end if one of
  them has no text.
* `setProperty_of_map`, `deleteProperty_of_map`, `getProperty_of_map`, `hasProperty_of_map`,
  `ownKeys_of_map`: the five traps on a map.
* `MapTrap.records_run`, `MapTrap.records_runAll`: one trap, and all of them.
* `map_proxy_dictionary`: what the traps of a map proxy show afterwards.
-/

namespace Membrane

open Host (Value)
open MapWrite (value? BornBefore entriesOf)

/-! ### Texts of keys -/

/-- The texts of some keys, null left out. -/
def World.keyTexts (w : World) (keys : List Value) : List String :=
  (keys.filter (!·.isNull)).map w.hostText

section Texts

variable {w : World} {keys : List Value}

/-- Keys that have texts are listed. -/
theorem Run.keyTexts_of_forall (h : ∀ key ∈ keys, w.HasText key) :
    Run.keyTexts keys w = .ok (w.keyTexts keys) w :=
  Run.mapM_of_forall (fun _ => Run.hostText_of_hasText) fun key hkey =>
    h key (List.mem_of_mem_filter hkey)

/-- Keys one of which has no text are never listed. -/
theorem Run.keyTexts_of_exists (h : ∃ key ∈ keys, ¬w.HasText key) :
    Run.keyTexts keys w = .error .exhausted w := by
  obtain ⟨key, hkey, hendless⟩ := h
  have hnull : key.isNull = false := by
    cases key with
    | null => exact absurd rfl hendless
    | _ => rfl
  refine Run.mapM_of_exists (fun _ => Run.hostText_of_hasText)
    (fun _ => Run.hostText_of_not_hasText) ⟨key, List.mem_filter.2 ⟨hkey, ?_⟩, hendless⟩
  rw [hnull]
  rfl

end Texts

/-- A dictionary with text keys as a host map stores it. -/
def textKeyed (d : Dictionary String Value) : Dictionary Value Value :=
  d.map fun e => (.string e.1, e.2)

section TextKeyed

variable (d : Dictionary String Value) (k : String)

theorem beq_string (a b : String) : (Value.string a == Value.string b) = (a == b) := rfl

theorem textKeyed_cons (e : String × Value) :
    textKeyed (e :: d) = (.string e.1, e.2) :: textKeyed d :=
  rfl

theorem keys_textKeyed : (textKeyed d).keys = d.keys.map .string := by
  simp [textKeyed, Dictionary.keys]

theorem get?_textKeyed : (textKeyed d).get? (.string k) = d.get? k := by
  induction d with
  | nil => rfl
  | cons e d ih => simp [textKeyed_cons, Dictionary.get?_cons, beq_string, ih]

theorem contains_textKeyed : (textKeyed d).contains (.string k) = d.contains k := by
  simp [textKeyed, Dictionary.contains, List.any_map, Function.comp_def, beq_string]

theorem put_textKeyed (v : Value) : (textKeyed d).put (.string k) v = textKeyed (d.put k v) := by
  induction d with
  | nil => rfl
  | cons e d ih =>
    simp only [textKeyed_cons, Dictionary.put_cons, beq_string, ih]
    split <;> rfl

theorem erase_textKeyed : (textKeyed d).erase (.string k) = textKeyed (d.erase k) := by
  induction d with
  | nil => rfl
  | cons e d ih =>
    simp only [textKeyed_cons, Dictionary.erase_cons, beq_string, ih]
    split <;> rfl

/-- The string form of a text is the text. -/
theorem World.hostText?_string (w : World) (s : String) : w.hostText? (.string s) = some s := rfl

theorem keyTexts_textKeyed (w : World) : Run.keyTexts (textKeyed d).keys w = .ok d.keys w := by
  have htext (k : String) : w.HasText (.string k) ∧ w.hostText (.string k) = k :=
    World.hasText_of_eq (w.hostText?_string k)
  have hnull : (d.keys.map Value.string).filter (!·.isNull) = d.keys.map .string :=
    List.filter_eq_self.2 (by simp [Value.isNull])
  rw [keys_textKeyed, Run.keyTexts_of_forall (List.forall_mem_map.2 fun k _ => (htext k).1),
    World.keyTexts, hnull, List.map_map]
  have hkeys := (List.map_congr_left fun k _ => (htext k).2).trans d.keys.map_id
  exact congrArg (EStateM.Result.ok · w) hkeys

end TextKeyed

/-! ### Traps -/

section Traps

variable {eng : Engine} {h : Handler} {k : String} {u : Value} {value : Script.Value}
  {d : Dictionary String Value} {log : List MapWrite} {w w₁ : World}

/-- A write puts an entry, whatever else answers to the key. -/
theorem setProperty_of_map {entries : Dictionary Value Value}
    (hvalue : eng.toHost value w = .ok u w₁) (hmap : w₁.map? h.target = some entries) :
    eng.setProperty h (.string k) value w =
      .ok true (w₁.changeEntries h.target (·.put (.string k) u)) := by
  have hdata := World.map?_eq_some_iff.1 hmap
  have hset : Run.setElement h.target k u w₁ =
      .ok true (w₁.changeEntries h.target (·.put (.string k) u)) := by
    unfold Run.setElement
    rw [Run.get_bind, hdata]
    rfl
  exact (Run.bind_of_ok hvalue).trans (Run.bind_of_ok hset)

/-- A deletion drops the entry, if there is one. -/
theorem deleteProperty_of_map {entries : Dictionary Value Value} {target : Value}
    (hmap : w.map? target = some entries) :
    Run.deleteProperty target (.string k) w =
      .ok true (w.changeEntries target (·.erase (.string k))) := by
  unfold Run.deleteProperty
  rw [Run.get_bind, World.map?_eq_some_iff.1 hmap]
  rfl

/-- An entry is read before anything else that answers to its key. -/
theorem getProperty_of_get? {entries : Dictionary Value Value}
    (hmap : w.map? h.target = some entries) (hu : entries.get? (.string k) = some u) :
    eng.getProperty h (.string k) w = eng.toScript u w := by
  have hdata := World.map?_eq_some_iff.1 hmap
  have hshown : w.element? h.target k = some u := by simpa [World.element?, hdata] using hu
  exact Engine.getProperty_of_element? (fun _ => by simp [World.array?, hdata]) hshown

theorem getProperty_of_map (hmap : w.map? h.target = some (textKeyed d))
    (hk : d.get? k = some u) : eng.getProperty h (.string k) w = eng.toScript u w :=
  getProperty_of_get? hmap ((get?_textKeyed d k).trans hk)

/-- A key that is present is said to be there, if the engine lets it cross. -/
theorem hasProperty_of_map (hmap : w.map? h.target = some (textKeyed d)) (hk : k ∈ d.keys)
    (hcross : eng.refusesScript w (.string k) = none) :
    eng.hasProperty h (.string k) w = .ok true w := by
  have hcontains : w.contains h.target (.string k) = true := by
    simpa [World.contains, World.map?_eq_some_iff.1 hmap, contains_textKeyed]
      using Dictionary.contains_iff.2 hk
  rw [Engine.hasProperty_eq_ok (Engine.toHost_eq_carryToHost hcross), hcontains]
  rfl

/-- The keys of the entries are the keys that are listed. -/
theorem ownKeys_of_map {r : Ref .handler} (hr : w.handlers.get? r = some h)
    (hmap : w.map? h.target = some (textKeyed d)) : Run.ownKeys r w = .ok d.keys w := by
  unfold Run.ownKeys
  rw [Run.get_bind, hr, Option.bind_some, World.map?_eq_some_iff.1 hmap]
  exact keyTexts_textKeyed d w

end Traps

/-- A trap that writes or deletes the property of a text. -/
inductive MapTrap where
  | set (key : String) (value : Script.Value)
  | delete (key : String)

namespace MapTrap

/-- The property a trap is called for. -/
def key : MapTrap → String
  | set k _ | delete k => k

/-- Calls the trap of a handler. -/
def run (eng : Engine) (h : Handler) : MapTrap → Run Bool
  | set k value => eng.setProperty h (.string k) value
  | delete k => Run.deleteProperty h.target (.string k)

/-- What a trap writes when it is called in a world: nothing if the value cannot be carried to the
host. -/
def writes (eng : Engine) (w : World) : MapTrap → List MapWrite
  | set k value =>
    match eng.toHost value w with
    | .ok u _ => [.put k u]
    | .error _ _ => []
  | delete k => [.drop k]

/-- Calls traps one after the other and adds what they write to a history. A trap that fails does
not keep the script from calling the next. -/
def runAll (eng : Engine) (h : Handler) : List MapTrap → World → List MapWrite →
    World × List MapWrite
  | [], w, log => (w, log)
  | t :: ts, w, log =>
    runAll eng h ts (Outcome.world (t.run eng h w)) (t.writes eng w ++ log)

variable {eng : Engine} {h : Handler} {d : Dictionary String Value} {log log' : List MapWrite}
  {w w' : World}

theorem handlers_changeEntries (w : World) (target : Value)
    (change : Dictionary Value Value → Dictionary Value Value) :
    (w.changeEntries target change).handlers = w.handlers := by
  rw [World.changeEntries, World.rest_changeData]

/-- One trap leaves what the history with its write leaves. -/
theorem records_run (eng : Engine) (t : MapTrap) (hmap : w.map? h.target = some (textKeyed d))
    (hlog : Records log d) :
    ∃ d', (Outcome.world (t.run eng h w)).map? h.target = some (textKeyed d') ∧
      Records (t.writes eng w ++ log) d' ∧
      (Outcome.world (t.run eng h w)).handlers = w.handlers := by
  cases t with
  | set k value =>
    have hadds := eng.within_toHost value w
    cases hvalue : eng.toHost value w with
    | ok u w₁ =>
      rw [hvalue] at hadds
      have hmap₁ := hadds.map? hmap
      have hrun : (set k value).run eng h w = .ok true _ := setProperty_of_map hvalue hmap₁
      have hwrites : (set k value).writes eng w = [.put k u] := by simp only [writes, hvalue]
      rw [hrun, hwrites]
      refine ⟨d.put k u, ?_, hlog.put, ?_⟩
      · exact (World.map?_changeEntries hmap₁ _).trans (congrArg some (put_textKeyed d k u))
      · exact (handlers_changeEntries _ _ _).trans hadds.handlers_eq
    | error e w₁ =>
      rw [hvalue] at hadds
      have hrun : (set k value).run eng h w = .error e w₁ := Run.bind_of_error hvalue
      have hwrites : (set k value).writes eng w = [] := by simp only [writes, hvalue]
      rw [hrun, hwrites]
      exact ⟨d, hadds.map? hmap, hlog, hadds.handlers_eq⟩
  | delete k =>
    have hrun : (delete k).run eng h w = .ok true _ := deleteProperty_of_map hmap
    rw [hrun]
    refine ⟨d.erase k, ?_, hlog.drop, handlers_changeEntries _ _ _⟩
    exact (World.map?_changeEntries hmap _).trans (congrArg some (erase_textKeyed d k))

/-- Any number of traps leave what the history with their writes leaves. -/
theorem records_runAll (ts : List MapTrap) (hmap : w.map? h.target = some (textKeyed d))
    (hlog : Records log d) (hrun : runAll eng h ts w log = (w', log')) :
    ∃ d', w'.map? h.target = some (textKeyed d') ∧ Records log' d' ∧
      w'.handlers = w.handlers := by
  induction ts generalizing w d log with
  | nil =>
    cases hrun
    exact ⟨d, hmap, hlog, rfl⟩
  | cons t ts ih =>
    obtain ⟨d₁, hmap₁, hlog₁, hhandlers₁⟩ := records_run eng t hmap hlog
    obtain ⟨d', hmap', hlog', hhandlers'⟩ := ih hmap₁ hlog₁ hrun
    exact ⟨d', hmap', hlog', hhandlers'.trans hhandlers₁⟩

theorem key_of_mem_writes {t : MapTrap} {e : MapWrite} (he : e ∈ t.writes eng w) :
    e.key = t.key := by
  cases t with
  | set k value =>
    cases hvalue : eng.toHost value w with
    | ok u w₁ =>
      simp only [writes, hvalue, List.mem_singleton] at he
      rw [he]
      rfl
    | error f w₁ => simp [writes, hvalue] at he
  | delete k =>
    rw [List.mem_singleton.1 he]
    rfl

/-- Writes to other keys tell nothing of a key. -/
theorem value?_append {k : String} {es : List MapWrite} (hes : ∀ e ∈ es, e.key ≠ k) :
    value? k (es ++ log) = value? k log := by
  induction es with
  | nil => rfl
  | cons e es ih =>
    rw [List.cons_append, MapWrite.value?_cons_of_ne (hes e List.mem_cons_self)]
    exact ih fun e he => hes e (List.mem_cons_of_mem _ he)

/-- A key that no trap is called for keeps its value. -/
theorem value?_runAll {k : String} {ts : List MapTrap} (hts : ∀ t ∈ ts, t.key ≠ k)
    (hrun : runAll eng h ts w log = (w', log')) : value? k log' = value? k log := by
  induction ts generalizing w log with
  | nil =>
    cases hrun
    rfl
  | cons t ts ih =>
    rw [ih (fun t ht => hts t (List.mem_cons_of_mem _ ht)) hrun]
    refine value?_append fun e he => ?_
    rw [key_of_mem_writes he]
    exact hts t List.mem_cons_self

end MapTrap

/-- A map whose keys are texts is, to its proxy, a dictionary in order of insertion. After any
sequence of traps that write and delete properties, with any texts for keys and any values, some of
which the engine may refuse, all keys are still texts; the keys listed are the keys present, each
once, in the order in which they were first put since they were last dropped; a present key reads as
the value put last and is said to be there; keys that no trap was called for read as before; every
deletion is accepted, that of an absent key without changing anything, and so is every write of a
value that crosses. -/
theorem map_proxy_dictionary (eng : Engine) {r : Ref .handler} {h : Handler} {w w' : World}
    {d : Dictionary String Value} {log : List MapWrite} (ts : List MapTrap)
    (hr : w.handlers.get? r = some h) (hmap : w.map? h.target = some (textKeyed d))
    (hkeys : d.keys.Nodup) (hrun : MapTrap.runAll eng h ts w (entriesOf d) = (w', log)) :
    ∃ d', w'.map? h.target = some (textKeyed d') ∧
      Run.ownKeys r w' = .ok d'.keys w' ∧ d'.keys.Nodup ∧ d'.keys.Pairwise (BornBefore log) ∧
      (∀ k, k ∈ d'.keys ↔ (value? k log).isSome) ∧
      (∀ k u, value? k log = some u →
        eng.getProperty h (.string k) w' = eng.toScript u w' ∧
        (eng.refusesScript w' (.string k) = none →
          eng.hasProperty h (.string k) w' = .ok true w')) ∧
      (∀ k, (∀ t ∈ ts, t.key ≠ k) → value? k log = d.get? k) ∧
      (∀ k, (∃ w₁, Run.deleteProperty h.target (.string k) w' = .ok true w₁) ∧
        (value? k log = none → Run.deleteProperty h.target (.string k) w' = .ok true w')) ∧
      ∀ k value u w₁, eng.toHost value w' = .ok u w₁ →
        ∃ w₂, eng.setProperty h (.string k) value w' = .ok true w₂ := by
  have hentries : Records (entriesOf d) d := .entries hkeys
  obtain ⟨d', hmap', hlog, hhandlers⟩ := MapTrap.records_runAll ts hmap hentries hrun
  have hr' : w'.handlers.get? r = some h := by rw [hhandlers, hr]
  refine ⟨d', hmap', ownKeys_of_map hr' hmap', hlog.nodup, hlog.ordered,
    fun k => hlog.mem_keys_iff, ?_, ?_, ?_, ?_⟩
  · intro k u hk
    have hget : d'.get? k = some u := (hlog.get?_eq k).trans hk
    have hmem : k ∈ d'.keys := hlog.mem_keys_iff.2 (hk ▸ rfl)
    exact ⟨getProperty_of_map hmap' hget, hasProperty_of_map hmap' hmem⟩
  · intro k hts
    rw [MapTrap.value?_runAll hts hrun, hentries.get?_eq]
  · intro k
    have hdelete := deleteProperty_of_map (k := k) hmap'
    refine ⟨⟨_, hdelete⟩, fun hk => ?_⟩
    have habsent : k ∉ d'.keys := by
      rw [hlog.mem_keys_iff, hk]
      exact Bool.false_ne_true
    have hsame : (textKeyed d').erase (.string k) = textKeyed d' := by
      rw [erase_textKeyed, Dictionary.erase_of_notMem habsent]
    rw [hdelete, World.changeEntries, World.changeData_eq_self (World.map?_eq_some_iff.1 hmap')]
    exact congrArg Host.Data.map hsame
  · intro k value u w₁ hvalue
    have hadds := eng.within_toHost value w'
    rw [hvalue] at hadds
    exact ⟨_, setProperty_of_map hvalue (hadds.map? hmap')⟩

/-- The handler of the map of `sizeMap`. -/
def sizeMapHandler : Handler :=
  ⟨.object ⟨0⟩, .build Config.standard Host.Library.map false, none, none⟩

/-- The world with a proxied map of one entry, whose key is also the name of a method. -/
def sizeMap : World :=
  { objects := ({} : Store .object Host.Object).alloc
      (.new Host.Library.map (.map [(.string "size", .integer 1)]))
    handlers := ({} : Store .handler Handler).alloc sizeMapHandler }

/-- Names of methods and digits are keys like others. -/
theorem map_proxy_dictionary_names :
    ∃ w, Run.ownKeys ⟨0⟩ w = .ok ["size", "get", "7"] w ∧
      (Engine.direct Config.standard).getProperty sizeMapHandler (.string "size") w =
        .ok (.integer 3) w ∧
      (Engine.direct Config.standard).hasProperty sizeMapHandler (.string "7") w = .ok true w ∧
      Run.deleteProperty sizeMapHandler.target (.string "07") w = .ok true w := by
  obtain ⟨d', -, -, -, -, -, hread, -, hdelete, -⟩ :=
    map_proxy_dictionary (Engine.direct Config.standard) (r := ⟨0⟩) (h := sizeMapHandler)
      (w := sizeMap) (d := [("size", .integer 1)])
      [.set "7" (.integer 2), .set "get" .null, .set "size" (.integer 3), .delete "7",
        .set "7" (.boolean true)]
      rfl rfl (List.nodup_singleton _) rfl
  exact ⟨_, rfl, (hread "size" (.integer 3) rfl).1, (hread "7" (.boolean true) rfl).2 rfl,
    (hdelete "07").2 rfl⟩

end Membrane
