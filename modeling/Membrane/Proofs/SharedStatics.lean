import Membrane.Proofs.HeldSequence
import Membrane.Proofs.Statics

/-!
# Shared static fields

A script deals with proxies: it has some made, for references to classes and for other values, and
makes requests to their handlers, in any order. All references to a class and to the classes that
extend it share a static field as long as the nearest public declaration is the same for them. What
is read through any of them is what was written last through any of them, or what the declaring
class was given at the start. A further declaration is another variable, a final one does not
change, and proxies of anything but references have no part in this.

## Main definitions

* `Dealing`, `Dealing.after`: what a script does with proxies.
* `Dealing.logged`, `Dealing.runAll`: the values written to static fields, and any number of
  dealings.
* `Dealing.Undisturbed`: that the accessor methods called on the way leave static fields alone.
* `World.SharesStatics`: what static fields hold after some values were written.

## Main results

* `Dealing.sharesStatics_after`, `Dealing.sharesStatics_runAll`: one dealing, and any number.
* `static_fields_shared`: what is read afterwards.
-/

namespace Membrane

open Host (Value)

/-! ### Dealings -/

/-- What a script does with proxies. -/
inductive Dealing where
  /-- A proxy of a value is made. -/
  | make (target : Value)
  /-- A request is made to a handler. -/
  | ask (r : Ref .handler) (q : Request)

/-- The values written to static fields, by the class that declares them, latest first. -/
abbrev StaticLog := Dictionary (Host.Class × String) Value

namespace Dealing

variable (eng : Engine)

/-- The world after a dealing, whether it failed or not. Where there is no handler, nothing
happens. -/
def after (w : World) : Dealing → World
  | make target => Outcome.world (eng.newHandler target w)
  | ask r q =>
    match w.handlers.get? r with
    | some h => Outcome.world (q.run eng r h w)
    | none => w

/-- What a request writes to a static field. It does so if it is made through a reference to a
class, the nearest public declaration of the name is not final and the value crosses to the host. -/
def written? (w : World) : Dealing → Option ((Host.Class × String) × Value)
  | ask r (.set property value) => do
    let c ← (w.handlers.get? r).bind (w.classRef? ·.target)
    let name ← property.propertyName?
    let e ← (c.nearestStatic? name).filter (!·.field.isFinal)
    match eng.toHost value w with
    | .ok v _ => some ((e.owner, name), v)
    | .error _ _ => none
  | _ => none

/-- The values written to static fields once a dealing is over. -/
def logged (w : World) (log : StaticLog) (d : Dealing) : StaticLog :=
  (d.written? eng w).toList ++ log

/-- What comes of dealings one after the other: the world, and the values written to static
fields. -/
def runAll : List Dealing → World → StaticLog → World × StaticLog
  | [], w, log => (w, log)
  | d :: ds, w, log => runAll ds (d.after eng w) (d.logged eng w log)

/-- If a request calls an accessor method, the method leaves static fields alone. A getter is called
only where no element, field or method answers. -/
def IsUndisturbed (w : World) : Dealing → Prop
  | make _ => True
  | ask r q => ∀ h, w.handlers.get? r = some h →
      (∀ property, q = .get property → w.ReadsByGetter h property) →
      ∀ m, q.accessor? h = some m → ∀ args,
        (eng.callMethod m h.target args).Within (World.LeavesStatics eng.config)

/-- The accessor methods that are called by dealings one after the other leave static fields
alone. -/
def Undisturbed : List Dealing → World → Prop
  | [], _ => True
  | d :: ds, w => d.IsUndisturbed eng w ∧ Undisturbed ds (d.after eng w)

end Dealing

/-- A request that calls no accessor method is not disturbed. -/
theorem Dealing.isUndisturbed_of_none {eng : Engine} {w : World} {r : Ref .handler} {q : Request}
    (hnone : (w.handlers.get? r).bind q.accessor? = none) : (ask r q).IsUndisturbed eng w := by
  intro h hr _ m hm
  rw [hr, Option.bind_some, hm] at hnone
  cases hnone

/-! ### What is held -/

/-- A world goes on from another by values that were written to static fields: each field holds the
value written last, or else what it held before. -/
structure World.SharesStatics (config : Config) (w₀ : World) (log : StaticLog) (w : World) :
    Prop where
  /-- Handlers show what they should. -/
  shows : w.ShowsTargets config
  /-- The objects there were still are there. -/
  kinds : w₀.KeepsKinds w
  /-- What static fields hold. -/
  statics : ∀ owner name, w.static? owner name = (log.get? (owner, name)).or (w₀.static? owner name)
  /-- Values were written to public fields that are not final. -/
  written : ∀ owner name v, log.get? (owner, name) = some v →
    ∃ f, owner.ownStatic? name = some f ∧ f.isFinal = false
  /-- The objects of the values are there. -/
  known : ∀ owner name v, log.get? (owner, name) = some v → w.Knows v

section Sharing

variable {eng : Engine} {config : Config} {w₀ w w₁ : World} {log : StaticLog} {h : Handler}
  {c : Host.Class} {name : String} {e : Descriptor.FieldEntry} {v : Value}

namespace World

theorem sharesStatics_nil (hw : w.ShowsTargets config) : w.SharesStatics config [] w where
  shows := hw
  kinds := refl w
  statics _ _ := rfl
  written _ _ _ hlogged := by cases hlogged
  known _ _ _ hlogged := by cases hlogged

namespace SharesStatics

variable (hs : World.SharesStatics config w₀ log w)
include hs

/-- What leaves static fields alone changes nothing about what they hold. -/
theorem leaves (hleaves : w.LeavesStatics config w₁) : w₀.SharesStatics config log w₁ where
  shows := hleaves.shown.shows hs.shows
  kinds := IsTrans.trans _ _ _ hs.kinds hleaves.shown.kinds
  statics owner name := by
    rw [← hs.statics, static?, static?, hleaves.statics]
  written := hs.written
  known owner name v hlogged :=
    hleaves.shown.kinds.keepsObjects v (hs.known owner name v hlogged)

/-- A value that is written is what the field holds. -/
theorem putStatic (hnearest : c.nearestStatic? name = some e) (hfinal : e.field.isFinal = false)
    (hv : w.Knows v) :
    w₀.SharesStatics config (((e.owner, name), v) :: log) (w.putStatic e.owner name v) where
  shows := by
    have hkeeps : w.KeepsShown config (w.putStatic e.owner name v) := .of_eq rfl rfl rfl
    exact hkeeps.shows hs.shows
  kinds := IsTrans.trans _ _ _ hs.kinds (.of_objects_eq rfl)
  statics owner' name' := by
    rw [static?, World.putStatic, Dictionary.get?_put, Dictionary.get?_cons]
    split
    · rfl
    · exact hs.statics owner' name'
  written owner' name' v' hlogged := by
    rw [Dictionary.get?_cons] at hlogged
    split at hlogged
    · next hkey =>
      cases beq_iff_eq.1 hkey
      exact ⟨e.field, Host.Class.ownStatic?_of_nearestStatic? hnearest, hfinal⟩
    · exact hs.written owner' name' v' hlogged
  known owner' name' v' hlogged := by
    rw [Dictionary.get?_cons] at hlogged
    split at hlogged
    · cases hlogged
      exact hv
    · exact hs.known owner' name' v' hlogged

end SharesStatics

end World

/-! ### One dealing -/

/-- To do something with a result only does nothing to the world. -/
theorem Run.world_bind_pure {α β : Type} (x : Run α) (f : α → β) (w : World) :
    Outcome.world ((x >>= fun a => Pure.pure (f a) : Run β) w) = Outcome.world (x w) := by
  cases hx : x w with
  | ok a w₁ => rw [Run.bind_of_ok hx]; rfl
  | error e w₁ => rw [Run.bind_of_error hx]; rfl

/-- To leave a write to a setter leaves static fields alone if the setter does. -/
theorem Engine.leavesStatics_setAccessor
    (hcall : ∀ m, h.descriptor.setter? name = some m →
      (eng.callMethod m h.target [v]).Within (World.LeavesStatics eng.config)) :
    (eng.setAccessor h name v).Within (World.LeavesStatics eng.config) := by
  unfold setAccessor
  split
  · next m hm => exact .bind (hcall m hm) fun _ => .pure _
  · exact .pure _

/-- A write through a reference to a class does nothing to static fields but write the value that is
logged. -/
theorem Dealing.sharesStatics_set {r : Ref .handler} {property value : Script.Value}
    (hs : w₀.SharesStatics eng.config log w) (hr : w.handlers.get? r = some h)
    (hclass : w.classRef? h.target = some c)
    (hcall : ∀ m, (Request.set property value).accessor? h = some m → ∀ args,
      (eng.callMethod m h.target args).Within (World.LeavesStatics eng.config)) :
    w₀.SharesStatics eng.config ((ask r (.set property value)).logged eng w log)
      (Outcome.world (eng.setProperty h property value w)) := by
  cases hname : property.propertyName? with
  | none =>
    simp only [logged, written?, hname, hr, hclass, Option.bind_some, Option.bind_none,
      Option.bind_eq_bind, Option.toList_none, List.nil_append, Engine.setProperty]
    exact hs
  | some name =>
    have hshows := hs.shows.handlers r h hr
    have hcrossed := eng.leavesStatics_toHost value w
    simp only [logged, written?, hname, hr, hclass, Option.bind_some, Option.bind_eq_bind]
    cases hvalue : eng.toHost value w with
    | error e w₁ =>
      rw [hvalue] at hcrossed
      have hfails : eng.setProperty h property value w = .error e w₁ := by
        unfold Engine.setProperty
        rw [hname]
        exact Run.bind_of_error hvalue
      rw [hfails, Option.bind_fun_none]
      exact hs.leaves hcrossed
    | ok v w₁ =>
      rw [hvalue] at hcrossed
      have hs₁ := hs.leaves hcrossed
      cases hwritable : (c.nearestStatic? name).filter (!·.field.isFinal) with
      | none =>
        -- A final field and a name without a field are left to a setter.
        have hfinal (e : Descriptor.FieldEntry) (he : c.nearestStatic? name = some e) :
            e.field.isFinal = true := by
          simpa [he] using hwritable
        rw [Engine.setProperty_of_not_nearestStatic hshows hclass hname hfinal hvalue]
        refine hs₁.leaves (Engine.leavesStatics_setAccessor (fun m hm => ?_) w₁)
        exact hcall m (by rw [Request.accessor?, hname, Option.bind_some, hm]) [v]
      | some e =>
        obtain ⟨hnearest, hfinal⟩ := Option.filter_eq_some_iff.1 hwritable
        have hknown : w₁.Knows v := Engine.knows_of_toHost hs.shows.knowsTargets hvalue
        replace hfinal : e.field.isFinal = false := by simpa using hfinal
        rw [Engine.setProperty_of_nearestStatic hshows hclass hname hnearest hfinal hvalue]
        exact hs₁.putStatic hnearest hfinal hknown

/-- A request through a reference to a class leaves static fields alone unless it is a write. -/
theorem Request.leavesStatics_of_not_set {r : Ref .handler} {q : Request}
    (hset : ∀ property value, q ≠ .set property value)
    (hcall : (∀ property, q = .get property → w.ReadsByGetter h property) →
      ∀ m, q.accessor? h = some m → ∀ args,
        (eng.callMethod m h.target args).Within (World.LeavesStatics eng.config)) :
    w.LeavesStatics eng.config (Outcome.world (q.run eng r h w)) := by
  have hreads := h.leavesStatics_reads eng
  have hdeletes (property : Script.Value) :
      (Run.deleteProperty h.target property).Within (World.LeavesStatics eng.config) :=
    Run.leavesStatics_of (World.allowsWrites_keepsShown.deleteProperty h.target property)
      fun w => by rw [Run.deleteProperty_eq, Run.statics_answerChange]
  cases q with
  | get property =>
    have hget : w.LeavesStatics eng.config (Outcome.world (eng.getProperty h property w)) := by
      by_cases hgetter : w.ReadsByGetter h property
      · refine hreads.getProperty (fun m hm => hcall (fun property' heq => ?_) m hm []) w
        cases heq
        exact hgetter
      · exact Engine.within_getProperty hreads hgetter
    rwa [Request.run, Run.world_bind_pure]
  | has property => exact hreads.bind (hreads.hasProperty property) (fun _ => hreads.pure _) w
  | set property value => exact absurd rfl (hset property value)
  | delete property => exact hreads.bind (hdeletes property) (fun _ => hreads.pure _) w
  | ownKeys => exact hreads.bind (hreads.ownKeys r) (fun _ => hreads.pure _) w

/-- After a dealing that is not disturbed, static fields hold what is logged. -/
theorem Dealing.sharesStatics_after {d : Dealing} (hs : w₀.SharesStatics eng.config log w)
    (hundisturbed : d.IsUndisturbed eng w) :
    w₀.SharesStatics eng.config (d.logged eng w log) (d.after eng w) := by
  cases d with
  | make target => exact hs.leaves (eng.leavesStatics_newHandler target w)
  | ask r q =>
    cases hr : w.handlers.get? r with
    | none =>
      have hnone : (ask r q).written? eng w = none := by
        cases q <;> simp [written?, hr]
      have hafter : (ask r q).after eng w = w := by simp only [after, hr]
      rw [logged, hnone, hafter]
      exact hs
    | some h =>
      have hcall := hundisturbed h hr
      have hafter : (ask r q).after eng w = Outcome.world (q.run eng r h w) := by
        simp only [after, hr]
      rw [hafter]
      by_cases hset : ∃ property value, q = .set property value
      · obtain ⟨property, value, rfl⟩ := hset
        replace hcall := hcall nofun
        rw [Request.run, Run.world_bind_pure]
        cases hclass : w.classRef? h.target with
        | some c => exact sharesStatics_set hs hr hclass hcall
        | none =>
          have hnone : (ask r (.set property value)).written? eng w = none := by
            simp [written?, hr, hclass]
          have hwrites : h.HoldsOfWrites eng fun _ x => x.Within (World.LeavesStatics eng.config) :=
            Handler.leavesStatics_writes fun name e hfield =>
              (hs.shows.handlers r h hr).isStatic_of_field? hclass hfield
          rw [logged, hnone]
          exact hs.leaves (hwrites.setProperty (fun m hm v => hcall m hm [v]) w)
      · have hother (property value : Script.Value) : q ≠ .set property value :=
          fun heq => hset ⟨property, value, heq⟩
        have hnone : (ask r q).written? eng w = none := by
          cases q with
          | set property value => exact absurd rfl (hother property value)
          | _ => rfl
        rw [logged, hnone]
        exact hs.leaves (Request.leavesStatics_of_not_set hother hcall)

/-- So they do after any number of dealings. -/
theorem Dealing.sharesStatics_runAll {ds : List Dealing} (hs : w₀.SharesStatics eng.config log w)
    (hundisturbed : Undisturbed eng ds w) :
    w₀.SharesStatics eng.config (runAll eng ds w log).2 (runAll eng ds w log).1 := by
  induction ds generalizing w log with
  | nil => exact hs
  | cons d ds ih => exact ih (sharesStatics_after hs hundisturbed.1) hundisturbed.2

end Sharing

/-! ### What is read -/

/-- Whatever a script deals with, each static field holds the value that was written to it last, or
what it held at the start, and that is what is read through every reference to a class for which it
is the nearest public declaration. It is read where values cross. A field that is not final takes
what is written through such a reference, and a final one takes nothing. Handlers of anything but
references show no static field, and a request to one neither reads nor writes any as long as the
decisions of the engine and the accessor method that it calls, if any, do not. -/
theorem static_fields_shared (eng : Engine) {w₀ : World} (hw₀ : w₀.ShowsTargets eng.config)
    {dealings : List Dealing} (hundisturbed : Dealing.Undisturbed eng dealings w₀)
    {w : World} {log : StaticLog} (hrun : Dealing.runAll eng dealings w₀ [] = (w, log)) :
    (∀ owner name,
      w.static? owner name = (log.get? (owner, name)).or (w₀.static? owner name)) ∧
    ∀ r h, w.handlers.get? r = some h →
      (∀ c name e, w.classRef? h.target = some c → c.nearestStatic? name = some e →
        let held := (log.get? (e.owner, name)).getD ((w₀.static? e.owner name).getD .null)
        eng.getProperty h (.string name) w = eng.toScript held w ∧
        (eng.Open → (∀ v, w₀.static? e.owner name = some v → w₀.Knows v) →
          ∃ s w₁, eng.getProperty h (.string name) w = .ok s w₁) ∧
        (e.field.isFinal = true → log.get? (e.owner, name) = none) ∧
        (e.field.isFinal = false → ∀ value v w₁, eng.toHost value w = .ok v w₁ →
          eng.setProperty h (.string name) value w = .ok true (w₁.putStatic e.owner name v))) ∧
      (w.classRef? h.target = none →
        (∀ name e, h.descriptor.field? name = some e → e.field.isStatic = false) ∧
        (eng.DecidesWithoutStatics → ∀ q : Request,
          (∀ m, q.accessor? h = some m → ∀ args,
            (eng.callMethod m h.target args).IgnoresStatics) →
          (q.run eng r h).IgnoresStatics)) := by
  have hs : w₀.SharesStatics eng.config log w := by
    have hall := Dealing.sharesStatics_runAll (World.sharesStatics_nil hw₀) hundisturbed
    rwa [hrun] at hall
  refine ⟨hs.statics, fun r h hr => ⟨fun c name e hclass hnearest => ?_, fun hclass => ?_⟩⟩
  · have hshows := hs.shows.handlers r h hr
    have hget : eng.getProperty h (.string name) w =
        eng.toScript ((w.static? e.owner name).getD .null) w :=
      Engine.getProperty_of_nearestStatic hshows hclass hnearest
    rw [hs.statics, Option.getD_or] at hget
    refine ⟨hget, fun hopen hvalues => ?_, fun hfinal => ?_, fun hfinal value v w₁ hvalue => ?_⟩
    · rw [hget]
      refine Engine.toScript_eq_ok hopen ?_
      cases hlogged : log.get? (e.owner, name) with
      | some v => exact hs.known e.owner name v hlogged
      | none =>
        cases hheld : w₀.static? e.owner name with
        | some v => exact hs.kinds.keepsObjects v (hvalues v hheld)
        | none => exact nofun
    · refine Option.eq_none_iff_forall_ne_some.2 fun v hlogged => ?_
      obtain ⟨f, hf, hwritable⟩ := hs.written e.owner name v hlogged
      cases hf.symm.trans (Host.Class.ownStatic?_of_nearestStatic? hnearest)
      cases hfinal.symm.trans hwritable
    · exact Engine.setProperty_of_nearestStatic hshows hclass rfl hnearest hfinal hvalue
  · have hfields (name : String) (e : Descriptor.FieldEntry)
        (hfield : h.descriptor.field? name = some e) : e.field.isStatic = false :=
      (hs.shows.handlers r h hr).isStatic_of_field? hclass hfield
    exact ⟨hfields, fun heng q hcall => (Handler.ignoresStatics_writes heng hfields).run r q hcall⟩

/-- A class with a static field `x` and a final one `y`. -/
def withStatics : Host.Class :=
  .extending ⟨Host.Library.firstSerial, "Base", none, none, none,
    [⟨"x", true, true, false⟩, ⟨"y", true, true, true⟩], []⟩ Host.Library.object

/-- A class that declares the static field `x` of its base class once more. -/
def withOwnStatic : Host.Class :=
  .extending ⟨Host.Library.firstSerial + 1, "Derived", none, none, none,
    [⟨"x", true, true, false⟩], []⟩ withStatics

/-- A class that declares nothing. -/
def withoutStatics : Host.Class :=
  .extending ⟨Host.Library.firstSerial + 2, "Other", none, none, none, [], []⟩ withStatics

/-- The world with a reference to each of some classes and nothing else. -/
def World.ofReferences (classes : List Host.Class) : World :=
  { objects := classes.foldl
      (fun objects c => objects.alloc (.new Host.Library.classes (.classRef c))) {} }

/-- What is written to `x` through the reference to one class is read through that to its base
class, and what is written through the class that declares it anew is read there alone. What is
written to `y` is lost. -/
theorem static_fields_shared_redeclared :
    let eng := Engine.direct Config.standard
    let dealings : List Dealing :=
      [.make (.object ⟨0⟩), .make (.object ⟨1⟩), .make (.object ⟨2⟩),
        .ask ⟨2⟩ (.set (.string "x") (.integer 1)), .ask ⟨1⟩ (.set (.string "x") (.integer 2)),
        .ask ⟨2⟩ (.set (.string "y") (.integer 3))]
    let w := (Dealing.runAll eng dealings
      (World.ofReferences [withStatics, withOwnStatic, withoutStatics]) []).1
    ∃ base derived, w.handlers.get? ⟨0⟩ = some base ∧ w.handlers.get? ⟨1⟩ = some derived ∧
      eng.getProperty base (.string "x") w = .ok (.integer 1) w ∧
      eng.getProperty derived (.string "x") w = .ok (.integer 2) w ∧
      eng.getProperty derived (.string "y") w = .ok .null w := by
  intro eng dealings w
  have hw₀ : (World.ofReferences [withStatics, withOwnStatic, withoutStatics]).ShowsTargets
      Config.standard :=
    ⟨(fun d hd => by cases hd), fun r h hr => by cases hr⟩
  have hundisturbed : Dealing.Undisturbed eng dealings
      (World.ofReferences [withStatics, withOwnStatic, withoutStatics]) :=
    ⟨trivial, trivial, trivial, Dealing.isUndisturbed_of_none (by decide +kernel),
      Dealing.isUndisturbed_of_none (by decide +kernel),
      Dealing.isUndisturbed_of_none (by decide +kernel), trivial⟩
  obtain ⟨-, hhandlers⟩ := static_fields_shared eng hw₀ hundisturbed (Prod.eta _).symm
  let base : Handler := ⟨.object ⟨0⟩, .build Config.standard withStatics true, none, none⟩
  let derived : Handler := ⟨.object ⟨1⟩, .build Config.standard withOwnStatic true, none, none⟩
  have hbase : w.handlers.get? ⟨0⟩ = some base := by decide +kernel
  have hderived : w.handlers.get? ⟨1⟩ = some derived := by decide +kernel
  have hread {h : Handler} {name : String} {held : Value} {s : Script.Value}
      (hget : eng.getProperty h (.string name) w = eng.toScript held w)
      (hs : held.scriptPrimitive? = some s) : eng.getProperty h (.string name) w = .ok s w := by
    rw [hget, Engine.toScript_eq_carryToScript rfl, Engine.carryToScript_of_primitive hs]
    rfl
  have hx := (hhandlers ⟨0⟩ base hbase).1 withStatics "x" ⟨⟨"x", true, true, false⟩, withStatics⟩
    (by decide +kernel) rfl
  have hown := (hhandlers ⟨1⟩ derived hderived).1 withOwnStatic "x"
    ⟨⟨"x", true, true, false⟩, withOwnStatic⟩ (by decide +kernel) rfl
  have hy := (hhandlers ⟨1⟩ derived hderived).1 withOwnStatic "y"
    ⟨⟨"y", true, true, true⟩, withStatics⟩ (by decide +kernel) rfl
  exact ⟨base, derived, hbase, hderived, hread hx.1 (by decide +kernel),
    hread hown.1 (by decide +kernel), hread hy.1 (by decide +kernel)⟩

end Membrane
