import Membrane.Proofs.Enumeration
import Membrane.Proofs.Refusal

/-!
# What a property key denotes to a map

Strings and numbers name properties, and values of different types may have one name. A property is
read, written and deleted by its name alone, so it does not matter then which of them is given.
Asking whether a map has a property looks for the host value that the property itself is carried
over as: a text for a string, and a number of its own type for a number. What is written under a
name is therefore there under the string, and never by the numbers that have that name.

## Main results

* `Engine.getProperty_congr`, `Engine.setProperty_congr`, `Run.deleteProperty_congr`: properties of
  one name are read, written and deleted alike.
* `hasProperty_of_name`: when a map has a property.
* `map_properties_by_name`: what a property key denotes to the four traps.
-/

namespace Membrane

open Host (Value)

/-! ### Properties of one name -/

section Names

variable {eng : Engine} {h : Handler} {p q : Script.Value} {name : String} {w : World}

/-- A property with a name is a primitive, which crosses by value. -/
theorem carryToHost_of_name (hp : p.propertyName? = some name) (n : Nat) (w : World) :
    p.carryToHost n w = .ok (Value.script p).widened w := by
  cases p <;> cases hp <;> cases n <;> rfl

theorem toHost_of_name (hp : p.propertyName? = some name) (hcross : eng.refusesScript w p = none) :
    eng.toHost p w = .ok (Value.script p).widened w :=
  (Engine.toHost_eq_carryToHost hcross).trans (carryToHost_of_name hp _ w)

/-- Only a string is carried over as a text of its own name. -/
theorem widened_ne_string (hp : p.propertyName? = some name) (hne : p ≠ .string name) :
    (Value.script p).widened ≠ .string name := by
  intro heq
  cases p <;> cases hp <;> cases heq
  exact hne rfl

/-- Symbols have no name, so a property with a name stands for no conversion or iterator. -/
theorem getSymbol_of_name (hp : p.propertyName? = some name) :
    Engine.getSymbol h p = Pure.pure none := by
  cases p <;> cases hp <;> rfl

theorem hasMember_of_name (hp : p.propertyName? = some name) :
    h.hasMember p = h.hasMember (.string name) := by
  unfold Handler.hasMember
  rw [hp]
  rfl

theorem hasPrototype_of_name (hp : p.propertyName? = some name) :
    h.hasPrototype p = h.hasPrototype (.string name) := by
  unfold Handler.hasPrototype
  rw [hp]
  rfl

/-- Properties of one name are read alike. -/
theorem Engine.getProperty_congr (hp : p.propertyName? = some name)
    (hq : q.propertyName? = some name) : eng.getProperty h p = eng.getProperty h q := by
  have helement : eng.getElement h p = eng.getElement h q := by
    simp only [Engine.getElement, hp, hq]
  have hfield : eng.getField h p = eng.getField h q := by simp only [Engine.getField, hp, hq]
  have hmethod : Engine.getMethod h p = Engine.getMethod h q := by
    simp only [Engine.getMethod, hp, hq]
  have haccessor : eng.getAccessor h p = eng.getAccessor h q := by
    simp only [Engine.getAccessor, hp, hq]
  have hprototype : Engine.getPrototype h p = Engine.getPrototype h q := by
    simp only [Engine.getPrototype, hp, hq]
  simp only [Engine.getProperty, Engine.resolve, helement, hfield, hmethod, getSymbol_of_name hp,
    getSymbol_of_name hq, haccessor, hprototype]

/-- Properties of one name are written alike. -/
theorem Engine.setProperty_congr (hp : p.propertyName? = some name)
    (hq : q.propertyName? = some name) (value : Script.Value) :
    eng.setProperty h p value = eng.setProperty h q value := by
  simp only [Engine.setProperty, hp, hq]

/-- Properties of one name are deleted alike. -/
theorem Run.deleteProperty_congr (hp : p.propertyName? = some name)
    (hq : q.propertyName? = some name) (target : Value) :
    Run.deleteProperty target p = Run.deleteProperty target q := by
  simp only [Run.deleteProperty, hp, hq]

end Names

/-! ### Maps -/

section Maps

variable {eng : Engine} {h : Handler} {p q value : Script.Value} {name : String} {w w' : World}
  {entries : Dictionary Value Value} {b : Bool}

/-- A map has a property if the host value of the property is a key, or if a member or a prototype
function goes by its name. -/
theorem hasProperty_of_name (hp : p.propertyName? = some name)
    (hmap : w.map? h.target = some entries) (hcross : eng.refusesScript w p = none) :
    eng.hasProperty h p w =
      .ok (entries.contains (Value.script p).widened || h.hasMember (.string name) ||
        h.hasPrototype (.string name)) w := by
  have hcontains : w.contains h.target (Value.script p).widened =
      entries.contains (Value.script p).widened := by
    simp [World.contains, World.map?_eq_some_iff.1 hmap]
  rw [Engine.hasProperty_eq_ok (toHost_of_name hp hcross), hcontains,
    World.hasIndex_of_keys? (World.keys?_of_map? hmap), Bool.or_false, hasMember_of_name hp,
    hasPrototype_of_name hp]

/-- A write to a map that ends has put an entry under the name. -/
theorem map?_of_setProperty (hp : p.propertyName? = some name)
    (hmap : w.map? h.target = some entries) (hset : eng.setProperty h p value w = .ok b w') :
    ∃ u w₁, eng.toHost value w = .ok u w₁ ∧
      w'.map? h.target = some (entries.put (.string name) u) := by
  have hadds := eng.within_toHost value w
  cases hvalue : eng.toHost value w with
  | ok u w₁ =>
    rw [hvalue] at hadds
    have hput := setProperty_of_map (k := name) hvalue (hadds.map? hmap)
    rw [Engine.setProperty_congr hp (q := .string name) rfl, hput] at hset
    cases hset
    exact ⟨u, w₁, rfl, World.map?_changeEntries (hadds.map? hmap) _⟩
  | error e w₁ =>
    rw [setProperty_of_refused hp hvalue] at hset
    cases hset

/-- What a property key denotes to a map. Properties of one name are read, written and deleted
alike, with the same answer and the same effect. Asking whether one is there looks for the host
value of the property itself among the keys, besides the members and prototype functions of its
name. So what is written to a property is read from it and is there under the string of its name,
while a number is there just if it was there before. -/
theorem map_properties_by_name (eng : Engine) (h : Handler) (hp : p.propertyName? = some name)
    (hq : q.propertyName? = some name) :
    eng.getProperty h p = eng.getProperty h q ∧
    (∀ value, eng.setProperty h p value = eng.setProperty h q value) ∧
    Run.deleteProperty h.target p = Run.deleteProperty h.target q ∧
    ∀ w entries, w.map? h.target = some entries →
      (eng.refusesScript w p = none →
        eng.hasProperty h p w =
          .ok (entries.contains (Value.script p).widened || h.hasMember (.string name) ||
            h.hasPrototype (.string name)) w) ∧
      ∀ value b w', eng.setProperty h p value w = .ok b w' →
        (∃ u w₁, eng.toHost value w = .ok u w₁ ∧ eng.getProperty h q w' = eng.toScript u w') ∧
        (eng.refusesScript w' (.string name) = none →
          eng.hasProperty h (.string name) w' = .ok true w') ∧
        (p ≠ .string name → eng.refusesScript w p = none → eng.refusesScript w' p = none →
          ∃ there, eng.hasProperty h p w = .ok there w ∧
            eng.hasProperty h p w' = .ok there w') := by
  refine ⟨Engine.getProperty_congr hp hq, Engine.setProperty_congr hp hq,
    Run.deleteProperty_congr hp hq _, fun w entries hmap => ⟨hasProperty_of_name hp hmap, ?_⟩⟩
  intro value b w' hset
  obtain ⟨u, w₁, hvalue, hmap'⟩ := map?_of_setProperty hp hmap hset
  refine ⟨⟨u, w₁, hvalue, ?_⟩, fun hcross => ?_, fun hne hcross hcross' => ?_⟩
  · have hread : eng.getProperty h q = eng.getProperty h (.string name) :=
      Engine.getProperty_congr hq rfl
    exact (congrFun hread w').trans (getProperty_of_get? hmap' (Dictionary.get?_put_self _ _ _))
  · have hkey : (entries.put (.string name) u).contains (.string name) = true := by
      rw [Dictionary.contains_put, BEq.rfl, Bool.or_true]
    have hwidened : (Value.script (.string name)).widened = .string name := rfl
    rw [hasProperty_of_name rfl hmap' hcross, hwidened, hkey, Bool.true_or, Bool.true_or]
  · have hother : (Value.string name == (Value.script p).widened) = false := by
      refine Bool.eq_false_iff.2 fun heq => widened_ne_string hp hne ?_
      exact beq_string_iff.1 (BEq.symm heq)
    refine ⟨_, hasProperty_of_name hp hmap hcross, ?_⟩
    rw [hasProperty_of_name hp hmap' hcross', Dictionary.contains_put, hother, Bool.or_false]

end Maps

/-- The world with a proxied map without entries. -/
def World.ofEmptyMap : World := World.ofEntries []

/-- What is written under a number is read under the string of its digits, and is there under the
string but not as the number. -/
theorem map_properties_by_name_digits :
    ∃ w, (Engine.direct Config.standard).setProperty sizeMapHandler (.integer 1) (.boolean true)
        World.ofEmptyMap = .ok true w ∧
      (Engine.direct Config.standard).getProperty sizeMapHandler (.string "1") w =
        .ok (.boolean true) w ∧
      (Engine.direct Config.standard).hasProperty sizeMapHandler (.string "1") w = .ok true w ∧
      (Engine.direct Config.standard).hasProperty sizeMapHandler (.integer 1) w = .ok false w := by
  have hname : (Script.Value.integer 1).propertyName? = some "1" := by decide
  obtain ⟨-, -, -, hmaps⟩ := map_properties_by_name (Engine.direct Config.standard) sizeMapHandler
    hname (q := .string "1") rfl
  have hset : (Engine.direct Config.standard).setProperty sizeMapHandler (.integer 1)
      (.boolean true) World.ofEmptyMap =
        .ok true (World.ofEmptyMap.changeEntries sizeMapHandler.target
          (·.put (.string "1") (.boolean true))) := rfl
  obtain ⟨⟨u, w₁, hvalue, hget⟩, hthere, hnumber⟩ := (hmaps World.ofEmptyMap [] rfl).2 _ _ _ hset
  obtain ⟨there, hbefore, hafter⟩ := hnumber nofun rfl rfl
  cases hvalue
  cases hbefore
  exact ⟨_, hset, hget, hthere rfl, hafter⟩

/-- What is written need not be there: a number is written under its digits, and is no key. -/
theorem not_hasProperty_of_setProperty :
    ¬ ∀ (h : Handler) (p value : Script.Value) (w w' : World), (w.map? h.target).isSome →
      (Engine.direct Config.standard).setProperty h p value w = .ok true w' →
      (Engine.direct Config.standard).hasProperty h p w' = .ok true w' := by
  intro hall
  have htrue := hall sizeMapHandler (.integer 1) .null World.ofEmptyMap _ rfl rfl
  have hfalse : (Engine.direct Config.standard).hasProperty sizeMapHandler (.integer 1)
      (World.ofEmptyMap.changeEntries sizeMapHandler.target (·.put (.string "1") .null)) =
        .ok false (World.ofEmptyMap.changeEntries sizeMapHandler.target
          (·.put (.string "1") .null)) := rfl
  cases htrue.symm.trans hfalse

end Membrane
