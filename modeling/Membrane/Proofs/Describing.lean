import Membrane.Proofs.Captures
import Membrane.Proofs.Enumeration
import Membrane.Proofs.HeldSequence
import Membrane.Proofs.Suiting

/-!
# What handlers show of their targets

A handler is made with the descriptor of the class of its target, or, if the target is a reference
to a class, with that of the class it refers to. Targets keep what they are, so that the descriptor
is the right one whenever it is asked. A handler of anything but a map or a set captures the names
that its descriptor lists, and nothing else ever.

## Main definitions

* `World.described?`: the class that scripts are shown of a value, and in which mode.
* `Descriptor.memberNames`: the names that a descriptor lists.
* `Handler.Shows`, `World.ShowsTargets`: that handlers show what they should.
* `World.KeepsShown`: what a later world has in common with an earlier one.

## Main results

* `Engine.keepsShown_newHandler`: new handlers show what they should.
* `Engine.keepsShown_callTrap`, `TrapCall.keepsShown_runAll`: so do all after calls of traps.
-/

namespace Membrane

open Host (Data Value)

/-- The class that scripts are shown of a value, and whether it is the class itself that is shown:
that which a reference refers to, or else the value's own. -/
def World.described? (w : World) (v : Value) : Option (Host.Class × Bool) :=
  match w.classRef? v with
  | some c => some (c, true)
  | none => (w.class? v).map (·, false)

/-- The names that a descriptor lists: those of the exposed fields and of the properties that
getters contribute, each once. -/
def Descriptor.memberNames (d : Descriptor) : List String :=
  Members.ofList (d.fields.keys ++ d.getterProperties)

/-- A handler shows the class that its target is described by, and has captured no keys but the
names of members, unless its target has keys of its own. -/
structure Handler.Shows (config : Config) (w : World) (h : Handler) : Prop where
  /-- The descriptor. -/
  descriptor : ∃ c isStatic, w.described? h.target = some (c, isStatic) ∧
    h.descriptor = .build config c isStatic
  /-- The captured keys. -/
  captured : w.keys? h.target = none →
    ∀ keys, h.uniqueKeys = some keys → keys = h.descriptor.memberNames

/-- The descriptors that were kept are right, and all handlers show what they should. -/
structure World.ShowsTargets (config : Config) (w : World) : Prop where
  /-- The descriptors that were kept. -/
  descriptors : Descriptor.AreBuilt config w.descriptors
  /-- The handlers. -/
  handlers : ∀ r h, w.handlers.get? r = some h → h.Shows config w

/-- Objects keep their class and the kind of their storage, and handlers that show what they should
go on to do so. -/
structure World.KeepsShown (config : Config) (w w' : World) : Prop where
  /-- The objects. -/
  kinds : w.KeepsKinds w'
  /-- The handlers. -/
  shows : w.ShowsTargets config → w'.ShowsTargets config

instance (config : Config) : IsPreorder World (World.KeepsShown config) where
  refl w := ⟨refl w, id⟩
  trans w w₁ w₂ h h' := ⟨IsTrans.trans w w₁ w₂ h.kinds h'.kinds, fun hw => h'.shows (h.shows hw)⟩

/-- A world without anything in it. -/
theorem World.showsTargets_empty (config : Config) : World.ShowsTargets config {} where
  descriptors _ h := by cases h
  handlers _ _ h := by cases h

namespace World

variable {config : Config} {w w' : World} {v : Value} {h : Handler} {r : Ref .handler}

/-! ### What is described -/

/-- Only what has a class is described. -/
theorem exists_class?_of_described? {x : Host.Class × Bool} (hx : w.described? v = some x) :
    ∃ c, w.class? v = some c := by
  unfold described? at hx
  cases hreference : w.classRef? v with
  | some c =>
    obtain ⟨r, o, rfl, ho, -⟩ := exists_object_of_data? (classRef?_eq_some_iff.1 hreference)
    exact ⟨o.cls, Option.map_eq_some_iff.2 ⟨o, ho, rfl⟩⟩
  | none =>
    rw [hreference] at hx
    obtain ⟨c, hc, -⟩ := Option.map_eq_some_iff.1 hx
    exact ⟨c, hc⟩

namespace KeepsKinds

variable (hkinds : w.KeepsKinds w')
include hkinds

theorem class? {c : Host.Class} (hclass : w.class? v = some c) : w'.class? v = some c := by
  cases v with
  | object r =>
    obtain ⟨o, ho, rfl⟩ := Option.map_eq_some_iff.1 hclass
    obtain ⟨o', ho', hcls, -⟩ := hkinds r o ho
    exact Option.map_eq_some_iff.2 ⟨o', ho', hcls⟩
  | _ => exact hclass

/-- What was storage is storage of the same kind. -/
theorem exists_data? {data' : Data} {c : Host.Class} (hclass : w.class? v = some c)
    (hdata' : w'.data? v = some data') :
    ∃ data, w.data? v = some data ∧ data'.kind = data.kind := by
  obtain ⟨r, o', rfl, ho', rfl⟩ := exists_object_of_data? hdata'
  obtain ⟨o, ho, -⟩ := Option.map_eq_some_iff.1 hclass
  obtain ⟨o₁, ho₁, -, hkind⟩ := hkinds r o ho
  cases ho'.symm.trans ho₁
  exact ⟨o.data, by simp [World.data?, object?, Value.object?, ho], hkind⟩

theorem classRef? {c : Host.Class} (hclass : w.class? v = some c) :
    w'.classRef? v = w.classRef? v := by
  have hkind {data : Data} {c' : Host.Class} :
      data.kind = .reference c' ↔ data = .classRef c' := by
    cases data <;> simp [Data.kind]
  refine Option.ext fun c' => ?_
  rw [classRef?_eq_some_iff, classRef?_eq_some_iff]
  constructor
  · intro hdata'
    obtain ⟨data, hdata, heq⟩ := hkinds.exists_data? hclass hdata'
    rw [hdata, hkind.1 heq.symm]
  · intro hdata
    obtain ⟨data', hdata', heq⟩ := hkinds.data? hdata
    rw [hdata', hkind.1 heq]

theorem described? {x : Host.Class × Bool} (hx : w.described? v = some x) :
    w'.described? v = some x := by
  obtain ⟨c, hclass⟩ := exists_class?_of_described? hx
  unfold World.described? at hx ⊢
  rwa [hkinds.classRef? hclass, hkinds.class? hclass, ← hclass]

/-- Objects stay where they are. -/
theorem keepsObjects : w.KeepsObjects w' := by
  intro v hv r hr
  obtain ⟨o, ho⟩ := hv r hr
  obtain ⟨o', ho', -⟩ := hkinds r o ho
  exact ⟨o', ho'⟩

/-- What has no keys of its own never had any. -/
theorem keys?_eq_none (hnone : w'.keys? v = none) : w.keys? v = none := by
  by_contra hsome
  obtain ⟨keys, hkeys⟩ := Option.ne_none_iff_exists'.1 hsome
  obtain ⟨entries, hdata, -⟩ | hdata := data?_of_keys? hkeys
  all_goals
    obtain ⟨data', hdata', hkind⟩ := hkinds.data? hdata
    unfold World.keys? at hnone
    rw [hdata'] at hnone
    cases data' <;> cases hkind
    cases hnone

end KeepsKinds

end World

/-! ### Handlers -/

section Handlers

variable {config : Config} {w w' : World} {h : Handler} {r : Ref .handler}

theorem Handler.Shows.later (hshows : h.Shows config w) (hkinds : w.KeepsKinds w') :
    h.Shows config w' where
  descriptor := by
    obtain ⟨c, isStatic, hdescribed, hbuilt⟩ := hshows.descriptor
    exact ⟨c, isStatic, hkinds.described? hdescribed, hbuilt⟩
  captured hnone := hshows.captured (hkinds.keys?_eq_none hnone)

namespace World

/-- Objects may change as long as they keep their class and the kind of their storage. -/
theorem KeepsShown.of_kinds (hkinds : w.KeepsKinds w') (hhandlers : w'.handlers = w.handlers)
    (hdescriptors : w'.descriptors = w.descriptors) : w.KeepsShown config w' where
  kinds := hkinds
  shows hw :=
    { descriptors := hdescriptors ▸ hw.descriptors
      handlers := fun r h hr => (hw.handlers r h (hhandlers ▸ hr)).later hkinds }

/-- All but objects, handlers and descriptors may change. -/
theorem KeepsShown.of_eq (hobjects : w'.objects = w.objects) (hhandlers : w'.handlers = w.handlers)
    (hdescriptors : w'.descriptors = w.descriptors) : w.KeepsShown config w' :=
  .of_kinds (.of_objects_eq hobjects) hhandlers hdescriptors

/-- Storage may change as long as its kind stays. -/
theorem keepsShown_changeData (w : World) (v : Value) {change : Data → Data}
    (hchange : ∀ data, (change data).kind = data.kind) :
    w.KeepsShown config (w.changeData v change) := by
  have hcontinues : w.Continues config (w.changeData v change) :=
    w.continues_changeData v fun data _ => hchange data
  exact .of_kinds hcontinues.kinds (by rw [rest_changeData]) (by rw [rest_changeData])

/-- No write changes what a target is. -/
theorem allowsWrites_keepsShown : AllowsWrites (KeepsShown config) where
  changeData w v _ hchange := w.keepsShown_changeData v hchange
  setField w v name u := by
    have hcontinues : w.Continues config (w.setField v name u).2 := w.continues_setField v name u
    have hrest := w.rest_setField v name u
    exact .of_kinds hcontinues.kinds (congrArg World.handlers hrest :)
      (congrArg World.descriptors hrest :)
  putStatic _ _ _ _ := .of_eq rfl rfl rfl

/-- What a handler keeps for itself may change as long as it shows what it should. -/
theorem KeepsShown.of_modify {change : Handler → Handler}
    (hhandlers : w'.handlers = w.handlers.modify r change) (hobjects : w'.objects = w.objects)
    (hdescriptors : w'.descriptors = w.descriptors)
    (hchange : ∀ h, w.handlers.get? r = some h → h.Shows config w → (change h).Shows config w) :
    w.KeepsShown config w' where
  kinds := .of_objects_eq hobjects
  shows hw :=
    { descriptors := hdescriptors ▸ hw.descriptors
      handlers := fun r' h' hr' => by
        rw [hhandlers] at hr'
        refine .later (w := w) ?_ (.of_objects_eq hobjects)
        by_cases hrr' : r = r'
        · subst hrr'
          rw [Store.get?_modify_self] at hr'
          obtain ⟨h₀, hr₀, rfl⟩ := Option.map_eq_some_iff.1 hr'
          exact hchange h₀ hr₀ (hw.handlers r h₀ hr₀)
        · rw [Store.get?_modify_of_ne _ _ hrr'] at hr'
          exact hw.handlers r' h' hr' }

/-- The targets of handlers that show what they should are there. -/
theorem ShowsTargets.knowsTargets (hw : w.ShowsTargets config) : w.KnowsTargets := by
  intro r h hr r' hr'
  obtain ⟨c, isStatic, hdescribed, -⟩ := (hw.handlers r h hr).descriptor
  obtain ⟨c', hc'⟩ := exists_class?_of_described? hdescribed
  rw [hr'] at hc'
  obtain ⟨o, ho, -⟩ := Option.map_eq_some_iff.1 hc'
  exact ⟨o, ho⟩

end World

namespace Run

theorem keepsShown_newFunction (c : Callable) :
    (newFunction c).Within (World.KeepsShown config) :=
  fun _ => .of_eq rfl rfl rfl

theorem keepsShown_uniqueKeys (r : Ref .handler) :
    (uniqueKeys r).Within (World.KeepsShown config) := by
  intro w
  obtain hworld | ⟨h, keys, hr, -, hcapture, hrun⟩ := uniqueKeys_cases r w
  · rw [hworld]
    exact refl w
  · rw [hrun]
    refine .of_modify rfl rfl rfl fun h' hr' hshows => ⟨hshows.descriptor, ?_⟩
    cases hr.symm.trans hr'
    intro hnone keys' hkeys
    cases hkeys
    cases hcapture.symm.trans (capturedKeys_of_keys?_eq_none hnone)
    rfl

end Run

namespace Engine

variable (eng : Engine)

/-- Where the descriptors that were kept are right, so is that of a value. -/
theorem descriptorOf_eq_ok {c : Host.Class} {isStatic : Bool} {target : Value} {w : World}
    (hbuilt : Descriptor.AreBuilt eng.config w.descriptors)
    (hdescribed : w.described? target = some (c, isStatic)) :
    ∃ ds, eng.descriptorOf target w =
        .ok (.build eng.config c isStatic) { w with descriptors := ds } ∧
      Descriptor.AreBuilt eng.config ds := by
  unfold descriptorOf
  rw [Run.get_bind]
  unfold World.described? at hdescribed
  cases hreference : w.classRef? target with
  | some c' =>
    rw [hreference] at hdescribed
    cases hdescribed
    exact describe_of_areBuilt hbuilt c true
  | none =>
    rw [hreference] at hdescribed
    obtain ⟨c', hclass, hc'⟩ := Option.map_eq_some_iff.1 hdescribed
    cases hc'
    simp only [hclass]
    exact describe_of_areBuilt hbuilt c false

/-- A handler is made with the descriptor that its target is described by. -/
theorem newHandler_eq_of_described {c : Host.Class} {isStatic : Bool} {target : Value} {w : World}
    (hbuilt : Descriptor.AreBuilt eng.config w.descriptors)
    (hdescribed : w.described? target = some (c, isStatic)) :
    ∃ ds, Descriptor.AreBuilt eng.config ds ∧
      eng.newHandler target w = .ok w.handlers.next
        { w with
          descriptors := ds
          handlers := w.handlers.alloc ⟨target, .build eng.config c isStatic, none, none⟩ } := by
  obtain ⟨ds, hd, hds⟩ := eng.descriptorOf_eq_ok hbuilt hdescribed
  obtain ⟨c', hc'⟩ := World.exists_class?_of_described? hdescribed
  have hnull : target.isNull = false := by
    cases target with
    | null => cases hc'
    | _ => rfl
  refine ⟨ds, hds, ?_⟩
  unfold newHandler
  simp only [hnull, Bool.false_eq_true, if_false]
  exact Run.bind_of_ok hd

/-- For what is not described no handler is made. -/
theorem newHandler_eq_error {target : Value} {w : World} (hnone : w.described? target = none) :
    ∃ e, eng.newHandler target w = .error e w := by
  have hdescriptor : ∃ e, eng.descriptorOf target w = .error e w := by
    unfold descriptorOf
    rw [Run.get_bind]
    unfold World.described? at hnone
    cases hreference : w.classRef? target with
    | some c =>
      rw [hreference] at hnone
      cases hnone
    | none =>
      rw [hreference] at hnone
      simp only [Option.map_eq_none_iff.1 hnone]
      exact ⟨_, rfl⟩
  obtain ⟨e, he⟩ := hdescriptor
  unfold newHandler
  split
  · exact ⟨_, rfl⟩
  · exact ⟨e, Run.bind_of_error he⟩

theorem keepsShown_newHandler (target : Value) :
    (eng.newHandler target).Within (World.KeepsShown eng.config) := by
  intro w
  have hadds := eng.within_newHandler target w
  have hkinds : w.KeepsKinds (Outcome.world (eng.newHandler target w)) :=
    .of_objects_eq (by rw [hadds.rest])
  refine ⟨hkinds, fun hw => ?_⟩
  cases hdescribed : w.described? target with
  | none =>
    obtain ⟨e, herror⟩ := eng.newHandler_eq_error hdescribed
    rw [herror]
    exact hw
  | some x =>
    obtain ⟨ds, hds, hmade⟩ := eng.newHandler_eq_of_described hw.descriptors hdescribed
    rw [hmade] at hkinds ⊢
    refine ⟨hds, fun r h hr => ?_⟩
    obtain hold | rfl := Store.get?_or_eq_of_alloc hr
    · exact (hw.handlers r h hold).later hkinds
    · exact ⟨⟨_, _, hkinds.described? hdescribed, rfl⟩, fun _ keys hkeys => by cases hkeys⟩

theorem keepsShown_toScript (v : Value) :
    (eng.toScript v).Within (World.KeepsShown eng.config) :=
  eng.within_toScript_of eng.keepsShown_newHandler v

theorem keepsShown_toHost (v : Script.Value) :
    (eng.toHost v).Within (World.KeepsShown eng.config) := by
  intro w
  have hadds := eng.within_toHost v w
  refine .of_kinds (fun r o ho => ⟨o, hadds.objects r o ho, rfl, rfl⟩) hadds.handlers_eq ?_
  rw [hadds.rest]

section Traps

variable {eng}
  (hmethod : ∀ code receiver args,
    (eng.method code receiver args).Within (World.KeepsShown eng.config))
include hmethod

/-- Whatever a handler does to answer, handlers show what they should. -/
theorem keepsShown_parts (h : Handler) :
    h.HoldsOfParts eng fun _ x => x.Within (World.KeepsShown eng.config) :=
  World.allowsWrites_keepsShown.parts hmethod eng.keepsShown_toScript
    eng.keepsShown_toHost Run.keepsShown_newFunction Run.keepsShown_uniqueKeys h

/-- A call of a trap. -/
theorem keepsShown_callTrap (r : Ref .handler) (t : Trap) (args : List Script.Value) :
    (eng.callTrap r t args).Within (World.KeepsShown eng.config) :=
  within_callTrap (keepsShown_parts hmethod) (fun _ _ => .of_eq rfl rfl rfl) r t args

end Traps

end Engine

end Handlers

/-- Whichever traps are called on whichever handlers, all handlers show what they should, as long as
the methods of the host leave it so. -/
theorem TrapCall.keepsShown_runAll {eng : Engine}
    (hmethod : ∀ code receiver args,
      (eng.method code receiver args).Within (World.KeepsShown eng.config))
    (calls : List TrapCall) (w : World) : w.KeepsShown eng.config (runAll eng calls w) := by
  induction calls generalizing w with
  | nil => exact refl w
  | cons c calls ih =>
    have hfirst := Engine.keepsShown_callTrap hmethod c.handler c.trap c.args w
    exact IsTrans.trans _ _ _ hfirst (ih _)

end Membrane
