import Membrane.Proofs.Enumeration
import Membrane.Proofs.MemberHistory
import Membrane.Proofs.Readers

/-!
# A set and what it shows

A set holds members whose objects exist, in a world whose handlers answer for what exists. This
stays so when values cross to the host and when the set is edited. All ways to read the set show the
same members in the same order: its number of members, its keys, its iterators and the calls of a
callback.

## Main definitions

* `World.HoldsMembers`: the members of a set.
* `World.ShowsMembers`: what is shown of them.

## Main results

* `World.HoldsMembers.edit`, `World.HoldsMembers.addsObjects`: what the set holds after an edit, and
  after values have crossed.
* `Handler.ServesSet.showsMembers`: what is shown.
-/

namespace Membrane

open Host (BuiltIn Value)
open Members (Edit)
open Prototype (SetFunction)

/-! ### The members of a set -/

/-- A set holds some members, and no reference to a missing object can get into it. -/
structure World.HoldsMembers (w : World) (target : Value) (members : List Value) : Prop where
  /-- The members. -/
  set : w.set? target = some members
  /-- The objects of the members are there. -/
  known : ∀ v ∈ members, w.Knows v
  /-- So are the objects for which there are handlers. -/
  targets : w.KnowsTargets

section Members

variable {w w' : World} {target : Value} {members : List Value}

namespace World.HoldsMembers

/-- An edit leaves only values whose objects are there. -/
theorem edit (h : w.HoldsMembers target members) (e : Edit Value) (he : ∀ v ∈ e.values, w.Knows v) :
    (w.putData target (.set (e.apply members))).HoldsMembers target (e.apply members) := by
  refine ⟨set?_putData h.set _, fun v hv => ?_, h.targets.putData target _⟩
  exact ((Edit.mem_of_mem_apply hv).elim (h.known v) (he v)).putData target _

theorem addsObjects (h : w.HoldsMembers target members) (hadds : w.AddsObjects w') :
    w'.HoldsMembers target members :=
  ⟨hadds.set? h.set, fun v hv => hadds.knows (h.known v hv), hadds.knowsTargets h.targets⟩

end World.HoldsMembers

theorem Host.setOf_eq_ok (hset : w.set? target = some members) :
    Host.setOf target w = .ok members w := by
  unfold Host.setOf
  rw [Run.get_bind, hset]
  rfl

end Members

/-! ### What is shown -/

/-- The engine never keeps a value from the script. -/
def Engine.Passes (eng : Engine) (v : Value) : Prop := ∀ w, eng.refusesHost w v = none

/-- What is shown of the members of a set. -/
structure World.ShowsMembers (w : World) (eng : Engine) (h : Handler) (members : List Value) :
    Prop where
  /-- A property of the name of a function is this function, bound to the set, unless the host has a
  method of this name that does not give way. -/
  property : ∀ f : SetFunction,
    h.descriptor.isOverride f.name = true ∨ h.descriptor.method? f.name = none →
    eng.getProperty h (.string f.name) w = (Prototype.Function.ofSet f).read h.target w
  /-- The property `size` is the number of members, as far as numbers of 32 bits go. -/
  size : ∃ k, (Prototype.Function.ofSet .size).read h.target w = .ok (.integer k) w ∧
    (members.length ≤ 2147483647 → k.toInt = members.length)
  /-- So is what the method of the host gives. -/
  hostSize : ∃ k, BuiltIn.setSize.run eng.hasher h.target [] w = .ok (.integer k) w ∧
    (members.length ≤ 2147483647 → k.toInt = members.length)
  /-- The keys are the texts of the members other than null, if these have texts. -/
  keys : (∀ v ∈ members, w.HasText v) → ∀ r h', w.handlers.get? r = some h' → h'.target = h.target →
    Run.ownKeys r w = .ok ((members.filter (!·.isNull)).map w.hostText) w
  /-- The values in turn are the members. -/
  values : (∀ v ∈ members, eng.Passes v) → ∀ f : SetFunction, f = .values ∨ f = .keys →
    ∀ invoke this args,
      eng.GivesInTurn w (f.run eng invoke h.target this args) (members.map .value)
  /-- The entries in turn are pairs of a member with itself. -/
  entries : (∀ v ∈ members, eng.Passes v) → ∀ invoke this args,
    eng.GivesInTurn w (SetFunction.entries.run eng invoke h.target this args)
      (members.map fun v => .pair v v)
  /-- A callback that leaves everything where it is is called on the members in turn, on each
  twice. -/
  forEach : (∀ v ∈ members, eng.Passes v) → ∀ invoke this args (I : World → Prop), I w →
    (Arguments.get args 0).isFunction = true →
    CallsWithin I World.KeepsThings invoke (Arguments.get args 0) →
    (SetFunction.forEach.run eng invoke h.target this args).Accounted invoke w
      (VisitsInTurn (memberCall (Arguments.get args 0) (Arguments.receiver args 1) this) members 0)

/-- A handler answers for a set. -/
structure Handler.ServesSet (h : Handler) (target : Value) : Prop where
  /-- Its target is the set. -/
  target : h.target = target
  /-- It shows what sets show. -/
  descriptor : ∃ config, h.descriptor = .build config Host.Library.set false

/-- An iterator over a set gives its members in turn. -/
theorem Engine.givesInTurn_memberItems {eng : Engine} {w : World} {target : Value}
    {members : List Value} (hholds : w.HoldsMembers target members)
    (hpasses : ∀ v ∈ members, eng.Passes v) (kind : IterationKind) :
    eng.GivesInTurn w (Run.newIterator target kind) (members.map (memberItem kind)) := by
  have hitems := iteratorItems_of_set? hholds.set kind
  rw [← hitems]
  refine givesInTurn_newIterator fun item hitem v hv => ?_
  rw [hitems] at hitem
  obtain ⟨u, hu, rfl⟩ := List.mem_map.1 hitem
  obtain rfl : v = u := by
    cases kind <;> simpa [memberItem, IteratorItem.values] using hv
  exact ⟨hpasses v hu, hholds.known v hu⟩

namespace Handler.ServesSet

variable {h : Handler} {target : Value} (hh : h.ServesSet target)
include hh

/-- Sets have no fields. -/
theorem field?_eq_none (name : String) : h.descriptor.field? name = none := by
  obtain ⟨config, hd⟩ := hh.descriptor
  rw [hd, Descriptor.field?_build]
  rfl

/-- No method is a getter of the name of a function. -/
theorem getter?_eq_none (f : SetFunction) : h.descriptor.getter? f.name = none := by
  obtain ⟨config, hd⟩ := hh.descriptor
  rw [hd]
  cases f <;> exact Descriptor.accessor?_eq_none (by decide +kernel)

/-- A property of the name of a function that no method keeps from it is this function. -/
theorem getProperty_eq_read (eng : Engine) {w : World} {members : List Value}
    (hset : w.set? target = some members) {f : SetFunction}
    (hmethod : h.descriptor.isOverride f.name = true ∨ h.descriptor.method? f.name = none) :
    eng.getProperty h (.string f.name) w = (Prototype.Function.ofSet f).read h.target w := by
  have hdata : w.data? h.target = some (.set members) := by
    rw [hh.target]
    exact World.set?_eq_some_iff.1 hset
  have helement : ¬w.ShowsElement h.target f.name := by
    simp [World.ShowsElement, World.element?, World.array?, hdata]
  have hfound : h.prototype? f.name = some (.ofSet f) := by
    obtain ⟨config, hd⟩ := hh.descriptor
    simp only [Handler.prototype?, hd]
    cases f <;> rfl
  exact Engine.getProperty_of_prototype? helement (hh.field?_eq_none f.name) hmethod
    (hh.getter?_eq_none f) hfound

/-- In whichever way a set is read, what is shown are its members in their order. -/
theorem showsMembers (eng : Engine) {w : World} {members : List Value}
    (hholds : w.HoldsMembers target members) : w.ShowsMembers eng h members := by
  have hset : w.set? h.target = some members := by
    rw [hh.target]
    exact hholds.set
  refine ⟨fun f hmethod => hh.getProperty_eq_read eng hholds.set hmethod,
    ⟨_, Run.bind_of_ok (setMembers_eq_ok_of_set? hset), clampInt32_ofNat⟩,
    ⟨_, Run.bind_of_ok (Host.setOf_eq_ok hset), clampInt32_ofNat⟩,
    fun htexts r h' hr htarget => ?_,
    fun hpasses f hf invoke this args => ?_, fun hpasses invoke this args => ?_,
    fun hpasses invoke this args I hw hcallback hthings => ?_⟩
  · have hkeys : w.keys? h'.target = some members := by
      unfold World.keys?
      rw [htarget, World.set?_eq_some_iff.1 hset]
    exact ownKeys_of_keys? hr hkeys htexts
  · rw [hh.target]
    obtain rfl | rfl := hf
    · exact Engine.givesInTurn_memberItems hholds hpasses .values
    · exact Engine.givesInTurn_memberItems hholds hpasses .values
  · rw [hh.target]
    exact Engine.givesInTurn_memberItems hholds hpasses .entries
  · exact visitsInTurn_set hthings hcallback hw
      (fun v hv => ⟨hpasses v hv, hholds.known v hv⟩) hset

end Handler.ServesSet

end Membrane
