import Membrane.Proofs.Copying
import Membrane.Proofs.Equality
import Membrane.Proofs.Widening

/-!
# There and back

What becomes of a host value that is carried to the script and handed back at once. Most values come
back as themselves, objects among them. The kinds of numbers and text that scripts do not tell apart
come back as the widest of them, with the value they had. A script value that the host holds comes
back as it is only if it is nothing that the host has a form of its own for: a primitive becomes a
primitive of the host, an array a list, and a proxy gives way to its target.

## Main definitions

* `Host.Value.survivesCrossing`: the values that come back as themselves.
* `Host.Value.WidensTo`: what becomes of numbers and characters of the narrower kinds.
* `World.AnswersForHosts`: handlers answer for objects that are there and for primitives.

## Main results

* `Host.Value.widened_beq_self`: which values are equal to what they become.
* `World.AnswersForHosts.toScript`: the handlers that are made answer for such values.
* `round_trip_characterised`: what comes back of a host value.
-/

namespace Membrane

open Host (Value)

namespace Host.Value

/-- The values that come back as themselves when they have crossed to the script and back. -/
def survivesCrossing : Value → Bool
  | .null | .boolean _ | .integer _ | .long _ | .double _ | .bigInteger _ | .string _ => true
  | .object _ => true
  | .script (.symbol _) | .script (.object _) | .script (.function _) => true
  | .byte _ | .short _ | .float _ | .character _ | .script _ => false

/-- The numbers and characters for which scripts have a wider kind only. -/
def isNarrow : Value → Bool
  | .byte _ | .short _ | .float _ | .character _ => true
  | _ => false

/-- A number of a narrower kind becomes one of a wider kind with the same value, and a character the
text of that one character. -/
inductive WidensTo : Value → Value → Prop
  /-- A number of 8 bits becomes one of 32. -/
  | byte {n : Int8} {k : Int32} (h : k.toInt = n.toInt) : WidensTo (.byte n) (.integer k)
  /-- A number of 16 bits becomes one of 32. -/
  | short {n : Int16} {k : Int32} (h : k.toInt = n.toInt) : WidensTo (.short n) (.integer k)
  /-- A floating-point number of 32 bits becomes one of 64. -/
  | float {x : Single} {y : Double} (h : x.SameValue y) : WidensTo (.float x) (.double y)
  /-- A character becomes a text. -/
  | character {c : Char} {s : String} (h : s.toList = [c]) : WidensTo (.character c) (.string s)

theorem widensTo_widened {v : Value} (h : v.isNarrow = true) : v.WidensTo v.widened := by
  cases v with
  | byte n =>
    have hlow := n.le_toInt
    have hhigh := n.toInt_lt
    exact .byte (Int32.toInt_ofInt_of_le (by omega) (by omega))
  | short n =>
    have hlow := n.le_toInt
    have hhigh := n.toInt_lt
    exact .short (Int32.toInt_ofInt_of_le (by omega) (by omega))
  | float x => exact .float x.sameValue_convert
  | character c => exact .character String.toList_ofList
  | _ => cases h

/-- No array and no proxy that the host holds survives. -/
theorem isWellHeld_of_survivesCrossing {v : Value} (h : v.survivesCrossing = true) :
    v.isWellHeld = true := by
  cases v with
  | script s => cases s <;> first | rfl | cases h
  | _ => rfl

theorem widened_of_survivesCrossing {v : Value} (h : v.survivesCrossing = true) :
    v.widened = v := by
  cases v with
  | script s => cases s <;> first | rfl | cases h
  | byte | short | float | character => cases h
  | _ => rfl

/-- A value that does not survive has become one of another type. -/
theorem widened_beq_self {v : Value} (hheld : v.isWellHeld = true) :
    (v.widened == v) = v.survivesCrossing := by
  cases hsurvives : v.survivesCrossing with
  | true => rw [widened_of_survivesCrossing hsurvives, BEq.rfl]
  | false =>
    cases v with
    | script s =>
      cases s with
      | array | proxy => cases hheld
      | symbol | object | function => cases hsurvives
      | _ => rfl
    | byte | short | float | character => rfl
    | _ => cases hsurvives

end Host.Value

/-! ### Handlers -/

/-- Every handler answers for a value that has a class: an object that is there, or a primitive. -/
def World.AnswersForHosts (w : World) : Prop :=
  ∀ r h, w.handlers.get? r = some h → ∃ c, w.class? h.target = some c

section Handlers

variable {eng : Engine} {v : Value} {s : Script.Value} {w w' : World}

/-- Only values that have a class have a descriptor, which comes from the world or is built. -/
theorem Engine.descriptorOf_inv {d : Descriptor} (h : eng.descriptorOf v w = .ok d w') :
    (∃ c, w.class? v = some c) ∧ ∃ ds, w' = { w with descriptors := ds } := by
  unfold descriptorOf at h
  rw [Run.get_bind] at h
  cases hreference : w.classRef? v with
  | some c =>
    -- A reference to a class is an object, and objects have classes.
    obtain ⟨r, o, rfl, ho, -⟩ :=
      World.exists_object_of_data? (World.classRef?_eq_some_iff.1 hreference)
    obtain ⟨d', ds, hdescribe⟩ := eng.describe_eq_ok c true w
    simp only [hreference, hdescribe] at h
    cases h
    exact ⟨⟨o.cls, by simp [World.class?, ho]⟩, ds, rfl⟩
  | none =>
    cases hclass : w.class? v with
    | some c =>
      obtain ⟨d', ds, hdescribe⟩ := eng.describe_eq_ok c false w
      simp only [hreference, hclass, hdescribe] at h
      cases h
      exact ⟨⟨c, rfl⟩, ds, rfl⟩
    | none =>
      simp only [hreference, hclass] at h
      cases h

/-- The handler that is made is the only one there was not before. -/
theorem World.AnswersForHosts.newHandler {r : Ref .handler} (hw : w.AnswersForHosts)
    (h : eng.newHandler v w = .ok r w') : w'.AnswersForHosts := by
  unfold Engine.newHandler at h
  split at h
  · cases h
  · obtain ⟨d, w₁, hd, hmade⟩ := Run.bind_eq_ok h
    obtain ⟨hclass, ds, rfl⟩ := Engine.descriptorOf_inv hd
    cases hmade
    intro r' h' hr'
    obtain hold | rfl := Store.get?_or_eq_of_alloc hr'
    · exact hw r' h' hold
    · exact hclass

/-- The handlers there are when a value has been carried to the script answer for hosts too. -/
theorem World.AnswersForHosts.toScript (hw : w.AnswersForHosts) (h : eng.toScript v w = .ok s w') :
    w'.AnswersForHosts := by
  replace h := Engine.carryToScript_of_toScript h
  obtain ⟨s', hs'⟩ | ⟨s', rfl⟩ | ⟨r, rfl⟩ := Engine.crossing_cases v
  · rw [Engine.carryToScript_of_primitive hs'] at h
    cases h
    exact hw
  · cases h
    exact hw
  · obtain ⟨r', w₁, hnew, hr'⟩ := Run.bind_eq_ok h
    cases hr'
    exact hw.newHandler hnew

end Handlers

/-! ### What comes back -/

/-- An array comes back as a list and a proxy as its target, which is no script value. -/
theorem ne_of_carryToHost {s : Script.Value} {w w' : World} {u : Value} {n : Nat}
    (hw : w.AnswersForHosts) (hheld : (Value.script s).isWellHeld = false)
    (h : s.carryToHost n w = .ok u w') : (u == .script s) = false := by
  cases s with
  | array r =>
    cases n with
    | zero => cases h
    | succ n =>
      obtain ⟨items, w₁, -, hlist⟩ := Run.bind_eq_ok ((carryToHost_array n r w).symm.trans h)
      cases hlist
      rfl
  | proxy r =>
    rw [carryToHost_proxy] at h
    cases h
    cases hr : w.handlers.get? r with
    | none => rfl
    | some h₁ =>
      obtain ⟨c, hc⟩ := hw r h₁ hr
      cases htarget : h₁.target with
      | script s => simp [htarget, World.class?, Value.primitive?] at hc
      | _ => simp [htarget]; rfl
  | _ => cases hheld

/-- An open engine carries every host value to the script. What comes back from there is equal to
the value if and only if the value is one that survives, and then it is the value itself. Numbers of
the narrower kinds come back as wider ones of the same value and characters as texts. Something
comes back of every value but an array that contains itself. -/
theorem round_trip_characterised (eng : Engine) (hopen : eng.Open) {w : World}
    (hhandlers : w.AnswersForHosts) {v : Value} (hknown : w.Knows v) :
    ∃ s w₁, eng.toScript v w = .ok s w₁ ∧ w₁.AnswersForHosts ∧
      ((∃ u w₂, eng.toHost s w₁ = .ok u w₂ ∧ (u == v) = true) ↔ v.survivesCrossing = true) ∧
      (v.survivesCrossing = true → eng.toHost s w₁ = .ok v w₁) ∧
      (v.isNarrow = true → ∃ u, eng.toHost s w₁ = .ok u w₁ ∧ v.WidensTo u) ∧
      ((∀ s, v = .script s → s.Unfolds w) → ∃ u w₂, eng.toHost s w₁ = .ok u w₂) := by
  obtain ⟨s, w₁, hs⟩ := Engine.toScript_eq_ok hopen hknown
  have hw₁ := hhandlers.toScript hs
  refine ⟨s, w₁, hs, hw₁, ?_⟩
  cases hheld : v.isWellHeld with
  | true =>
    have hback : eng.toHost s w₁ = .ok v.widened w₁ :=
      Engine.toHost_of_standsFor hopen (Engine.standsFor_toScript hheld hs)
        (Std.Refl.refl (r := World.KeepsTargets) w₁)
    refine ⟨?_, fun hsurvives => ?_, fun hnarrow => ⟨_, hback, Value.widensTo_widened hnarrow⟩,
      fun _ => ⟨_, _, hback⟩⟩
    · rw [← Value.widened_beq_self hheld]
      constructor
      · rintro ⟨u, w₂, hu, hequal⟩
        cases hback.symm.trans hu
        exact hequal
      · exact fun hequal => ⟨_, _, hback, hequal⟩
    · rw [hback, Value.widened_of_survivesCrossing hsurvives]
  | false =>
    -- Only a script value is held badly, and it crosses as it is.
    obtain ⟨s', rfl⟩ : ∃ s', v = .script s' := by
      cases v with
      | script s' => exact ⟨s', rfl⟩
      | _ => cases hheld
    cases Engine.carryToScript_of_toScript hs
    have hlost : (Value.script s).survivesCrossing = false :=
      Bool.eq_false_iff.2 fun hsurvives =>
        Bool.eq_false_iff.1 hheld (Value.isWellHeld_of_survivesCrossing hsurvives)
    refine ⟨?_, fun hsurvives => ?_, nofun, fun hunfolds => hopen.toHost_eq_ok (hunfolds s rfl)⟩
    · rw [hlost]
      refine iff_of_false ?_ nofun
      rintro ⟨u, w₂, hu, hequal⟩
      rw [Engine.toHost_eq_carryToHost (hopen.toHost _ s)] at hu
      rw [ne_of_carryToHost hhandlers hheld hu] at hequal
      cases hequal
    · rw [hlost] at hsurvives
      cases hsurvives

/-- A list comes back as itself, and a number of 16 bits as one of 32. -/
theorem round_trip_characterised_ofItems :
    (∃ s w₁, (Engine.direct Config.standard).toScript onlyList (World.ofItems []) = .ok s w₁ ∧
      (Engine.direct Config.standard).toHost s w₁ = .ok onlyList w₁) ∧
    ∃ s w₁ u, (Engine.direct Config.standard).toScript (.short 7) (World.ofItems []) = .ok s w₁ ∧
      (Engine.direct Config.standard).toHost s w₁ = .ok u w₁ ∧ (Value.short 7).WidensTo u := by
  have hopen := Engine.open_direct Config.standard
  have hhandlers : (World.ofItems []).AnswersForHosts := fun r h hr => by
    simp [World.ofItems, Store.get?] at hr
  have hlist : (World.ofItems []).Knows onlyList := fun r hr => by
    cases hr
    exact ⟨_, rfl⟩
  obtain ⟨s, w₁, hs, -, -, hsame, -⟩ := round_trip_characterised _ hopen hhandlers hlist
  obtain ⟨s', w₂, hs', -, -, -, hwider, -⟩ :=
    round_trip_characterised _ hopen hhandlers (v := .short 7) fun r hr => by cases hr
  obtain ⟨u, hu, hwidens⟩ := hwider rfl
  exact ⟨⟨s, w₁, hs, hsame rfl⟩, s', w₂, u, hs', hu, hwidens⟩

end Membrane
