import Membrane.Proofs.Elements
import Membrane.Proofs.Exposure
import Membrane.Proofs.Requests
import Membrane.Proofs.Resolution
import Membrane.Proofs.Sparing

/-!
# Private fields

An object has one slot for each field name of its hierarchy, and the handler of the object reaches a
slot just if some class of the hierarchy declares the field as public. If none does, the answers to
requests tell nothing of the slot, and no request changes it: objects that differ in what the slot
holds answer alike, whatever is asked of them in whatever order, provided that the methods of the
host leave the slot alone. If some class does, the slot is there for the reading, even where a class
nearer to the object declares it as private.

## Main definitions

* `Handler.Hides`: no exposed field is the slot.
* `Host.Class.KeepsPrivate`, `Host.Class.nearestField?`: the declarations of a field in a hierarchy.

## Main results

* `Handler.Hides.spares_parts`, `Request.runAll_putSlot`: one request, and any number of them.
* `private_field_unobserved`: objects that differ in a private field.
* `getProperty_of_public`: fields that some class declares as public.
-/

namespace Membrane

open Host (Value)

/-- No exposed field is the slot. -/
def Handler.Hides (h : Handler) (s : Slot) : Prop :=
  ∀ name entry, h.descriptor.field? name = some entry → entry.field.isStatic = false →
    h.target = .object s.object → entry.field.name ≠ s.name

/-! ### One request -/

section Traps

variable {h : Handler} {s : Slot} {name : String} {entry : Descriptor.FieldEntry}

/-- To read an exposed field spares a slot that is hidden. -/
theorem Handler.Hides.spares_readField (hhides : h.Hides s)
    (hentry : h.descriptor.field? name = some entry) {α : Type} {f : Value → Run α}
    (hf : ∀ v, (f v).Spares s) :
    (MonadState.get >>= fun w => f (w.readField entry h.target)).Spares s := by
  refine .get_bind (fun w => hf _) fun w b => congrArg f ?_
  unfold World.readField
  by_cases hstatic : entry.field.isStatic
  · rw [if_pos hstatic, if_pos hstatic]
    rfl
  · rw [if_neg hstatic, if_neg hstatic,
      World.field?_putSlot (hhides name entry hentry (Bool.eq_false_iff.2 hstatic))]

/-- To write an exposed field spares a slot that is hidden. -/
theorem Handler.Hides.spares_writeField (hhides : h.Hides s)
    (hentry : h.descriptor.field? name = some entry) (v : Value) :
    (Run.writeField entry h.target v).Spares s := by
  unfold Run.writeField
  split
  · exact .pure _
  · by_cases hstatic : entry.field.isStatic
    · rw [if_pos hstatic]
      exact .bind (.modify (fun _ _ hslot => hslot) fun _ _ _ _ => rfl) fun _ => .pure _
    · rw [if_neg hstatic]
      have hne := hhides name entry hentry (Bool.eq_false_iff.2 hstatic)
      constructor
      · intro w a hslot
        exact (World.slot?_setField hne v).trans hslot
      · intro w a _ b
        rw [Run.get_bind, Run.get_bind, World.setField_putSlot hne]
        rfl

/-- To change an element, or to decline, spares every slot. -/
theorem spares_of_answerChange {x : Run Bool} {target : Value}
    {change? : World → Option (Host.Data → Host.Data)}
    (hx : ∀ w, x w = w.answerChange target (change? w))
    (hput : ∀ w b, change? (w.putSlot s b) = change? w) : x.Spares s := by
  constructor
  · intro w a hslot
    rw [hx]
    cases change? w with
    | none => exact hslot
    | some change => exact (w.slot?_changeData s target change).trans hslot
  · intro w a _ b
    rw [hx, hx, hput]
    cases change? w with
    | none => rfl
    | some change =>
      exact congrArg (EStateM.Result.ok true) (w.changeData_putSlot s b target change)

theorem spares_setElement (target : Value) (name : String) (v : Value) :
    (Run.setElement target name v).Spares s :=
  spares_of_answerChange (Run.setElement_eq target name · v) fun w b => by
    simp only [World.elementWrite?, World.component?, World.data?_putSlot, World.class?_putSlot]

theorem spares_deleteProperty (target : Value) (property : Script.Value) :
    (Run.deleteProperty target property).Spares s :=
  spares_of_answerChange (Run.deleteProperty_eq target · property) fun w b => by
    unfold World.elementRemoval?
    simp only [World.component?, World.data?_putSlot, World.class?_putSlot]

theorem spares_uniqueKeys (r : Ref .handler) : (Run.uniqueKeys r).Spares s := by
  refine .get_bind (fun w => ?_) fun w b => rfl
  split
  · exact .pure _
  · next h _ =>
    split
    · exact .pure _
    · refine .bind (Run.Spares.holdsOfParts.capturedKeys (.throw _) h) fun keys =>
        .bind (.modify (fun _ _ hslot => hslot) fun _ _ _ _ => rfl) fun _ => .pure _

variable {eng : Engine} (heng : eng.Spares s)
include heng

/-- The parts of a handler's answers spare a slot that is hidden. -/
theorem Handler.Hides.spares_parts (hhides : h.Hides s) :
    h.HoldsOfParts eng fun _ x => x.Spares s where
  toHoldsOfParts := Run.Spares.holdsOfParts
  readPrototype _ := Run.Spares.holdsOfParts.readPrototype (.throw _) .raise .newFunction _ _
  exhausted := .throw _
  readField := hhides.spares_readField
  toScript := heng.toScript
  toHost := heng.toHost
  newFunction _ := .newFunction _
  callMethod _ args := heng.callMethod _ h.target args
  setElement := spares_setElement h.target
  writeField := hhides.spares_writeField
  deleteProperty := spares_deleteProperty h.target
  uniqueKeys := spares_uniqueKeys

/-! ### Any number of requests -/

/-- Requests leave a slot that is hidden alone, and what it holds makes no difference to them. -/
theorem Request.runAll_putSlot (hhides : h.Hides s) (r : Ref .handler) (requests : List Request)
    {w : World} {a : Value} (hslot : w.slot? s = some a) (b : Value) :
    (runAll eng r h requests w).2.slot? s = some a ∧
      runAll eng r h requests (w.putSlot s b) =
        ((runAll eng r h requests w).1, (runAll eng r h requests w).2.putSlot s b) := by
  induction requests generalizing w with
  | nil => exact ⟨hslot, rfl⟩
  | cons q requests ih =>
    have hq := (hhides.spares_parts heng).run r q
    have hkept := hq.keeps w a hslot
    obtain ⟨hslot', hrest⟩ := ih hkept
    refine ⟨hslot', ?_⟩
    have hworld : Outcome.world (q.run eng r h (w.putSlot s b)) =
        (Outcome.world (q.run eng r h w)).putSlot s b := by
      rw [hq.ignores w a hslot b, Outcome.world_mapWorld]
    have hresult : Outcome.result (q.run eng r h (w.putSlot s b)) =
        Outcome.result (q.run eng r h w) := by
      rw [hq.ignores w a hslot b]
      cases q.run eng r h w <;> rfl
    simp only [runAll, hworld, hresult, hrest]

end Traps

/-! ### Declarations -/

namespace Host.Class

/-- No class of the hierarchy declares an instance field of the name as public. -/
def KeepsPrivate (c : Host.Class) (name : String) : Prop :=
  ∀ d ∈ c.hierarchy, ∀ f ∈ d.own.fields, f.isStatic = false → f.name = name → f.isPublic = false

instance (c : Host.Class) (name : String) : Decidable (c.KeepsPrivate name) :=
  inferInstanceAs (Decidable (∀ d ∈ c.hierarchy, ∀ f ∈ d.own.fields,
    f.isStatic = false → f.name = name → f.isPublic = false))

/-- The declaration of an instance field of a name that is nearest to the class. -/
def nearestField? (c : Host.Class) (name : String) : Option Field :=
  (c.hierarchy.flatMap fun d => d.own.fields.filter (!·.isStatic)).find? (·.name == name)

end Host.Class

section Declarations

variable {eng : Engine} {h : Handler} {config : Config} {c : Host.Class} {s : Slot}

/-- A slot is hidden if no class declares its field as public. -/
theorem hides_of_keepsPrivate (hd : h.descriptor = .build config c false)
    (hprivate : c.KeepsPrivate s.name) : h.Hides s := by
  intro name entry hentry _ _ hname
  rw [hd, Descriptor.field?_build] at hentry
  obtain ⟨howner, hfield, hpublic, hstatic⟩ :=
    Descriptor.mem_fieldSequence_instance.1 (List.mem_of_find?_eq_some hentry)
  rw [hprivate entry.owner howner entry.field hfield hstatic hname] at hpublic
  cases hpublic

/-- A field that some class of the hierarchy declares as public is exposed, and it is the one slot
of its name. -/
theorem exists_field?_of_public (hd : h.descriptor = .build config c false) {name : String}
    (hpublic : ¬c.KeepsPrivate name) : ∃ entry, h.descriptor.field? name = some entry ∧
      entry.field.isStatic = false ∧ entry.field.name = name := by
  simp only [Host.Class.KeepsPrivate, not_forall] at hpublic
  obtain ⟨d, hdc, f, hf, hstatic, hname, hexposed⟩ := hpublic
  have hmem : ⟨f, d⟩ ∈ Descriptor.fieldSequence c false :=
    Descriptor.mem_fieldSequence_instance.2 ⟨hdc, hf, Bool.of_not_eq_false hexposed, hstatic⟩
  have hsome : ((Descriptor.fieldSequence c false).find? (·.field.name == name)).isSome :=
    List.find?_isSome.2 ⟨_, hmem, by simpa using hname⟩
  rw [hd, Descriptor.field?_build]
  obtain ⟨entry, hentry⟩ := Option.isSome_iff_exists.1 hsome
  have hinstance := Descriptor.mem_fieldSequence_instance.1 (List.mem_of_find?_eq_some hentry)
  have hfound := List.find?_some hentry
  exact ⟨entry, hentry, hinstance.2.2.2, by simpa using hfound⟩

/-- A field that some class of the hierarchy declares as public is read, whatever the classes nearer
to the object declare. -/
theorem getProperty_of_public (hd : h.descriptor = .build config c false)
    (htarget : h.target = .object s.object) (hpublic : ¬c.KeepsPrivate s.name) {w : World}
    {a : Value} (hslot : w.slot? s = some a) (helement : ¬w.ShowsElement h.target s.name) :
    eng.getProperty h (.string s.name) w = eng.toScript a w := by
  obtain ⟨entry, hentry, hstatic, hname⟩ := exists_field?_of_public hd hpublic
  have hread : w.readField entry h.target = a := by
    have hfield : ((w.object? h.target).bind (·.field? entry.field.name)).getD .null = a := by
      rw [htarget, hname]
      exact congrArg (Option.getD · .null) hslot
    simpa [World.readField, hstatic] using hfield
  rw [Engine.getProperty_of_field? helement hentry, hread]

/-- Objects that differ in a private field. If no class of the hierarchy of an object declares the
field as public, two worlds that differ in what the object holds there give the same answers to all
requests to the handler of the object, one after the other, and go on to differ in nothing else. No
request changes what the field holds. -/
theorem private_field_unobserved (hd : h.descriptor = .build config c false)
    (htarget : h.target = .object s.object) (hprivate : c.KeepsPrivate s.name)
    (heng : eng.Spares s) {w w₁ : World} {b : Value}
    (hdiffers : w.setField h.target s.name b = (true, w₁)) (r : Ref .handler)
    (requests : List Request) :
    (Request.runAll eng r h requests w₁).1 = (Request.runAll eng r h requests w).1 ∧
    (Request.runAll eng r h requests w).2.setField h.target s.name b =
      (true, (Request.runAll eng r h requests w₁).2) ∧
    (Request.runAll eng r h requests w).2.slot? s = w.slot? s ∧
    (Request.runAll eng r h requests w₁).2.slot? s = w₁.slot? s := by
  have hhides := hides_of_keepsPrivate hd hprivate
  rw [htarget] at hdiffers ⊢
  obtain ⟨s', a, hobject, hname, hslot, rfl⟩ := World.exists_slot?_of_setField hdiffers
  obtain rfl : s = s' := by
    cases s
    cases s'
    cases hobject
    cases hname
    rfl
  obtain ⟨hkept, hrun⟩ := Request.runAll_putSlot heng hhides r requests hslot b
  rw [hrun]
  exact ⟨rfl, World.setField_of_slot? hkept b, hkept.trans hslot.symm,
    (World.slot?_putSlot hkept b).trans (World.slot?_putSlot hslot b).symm⟩

end Declarations

/-- A class with a field `x`, public or private. -/
def withField (isPublic : Bool) : Host.Class :=
  .extending ⟨Host.Library.firstSerial, "Base", none, none, none,
    [⟨"x", false, isPublic, false⟩], []⟩ Host.Library.object

/-- A class that declares the public field `x` of its base class once more, as private. -/
def withHiddenField : Host.Class :=
  .extending ⟨Host.Library.firstSerial + 1, "Derived", none, none, none,
    [⟨"x", false, false, false⟩], []⟩ (withField true)

/-- The handler of the only object of a world. -/
def onlyObjectHandler (c : Host.Class) : Handler :=
  ⟨.object ⟨0⟩, .build Config.standard c false, none, none⟩

/-- The world with an object of a class and nothing else. -/
def World.ofObject (c : Host.Class) : World :=
  { objects := ({} : Store .object Host.Object).alloc (.new c .plain) }

/-- A private field is neither written, read, seen nor listed, be it null or true. -/
theorem private_field_unobserved_written :
    ∃ w₁, (World.ofObject (withField false)).setField (.object ⟨0⟩) "x" (.boolean true) =
        (true, w₁) ∧
      (Request.runAll (Engine.direct Config.standard) ⟨0⟩ (onlyObjectHandler (withField false))
          [.set (.string "x") .null, .get (.string "x"), .has (.string "x"), .ownKeys] w₁).1 =
        (Request.runAll (Engine.direct Config.standard) ⟨0⟩ (onlyObjectHandler (withField false))
          [.set (.string "x") .null, .get (.string "x"), .has (.string "x"), .ownKeys]
          (World.ofObject (withField false))).1 :=
  ⟨_, rfl, (private_field_unobserved (s := ⟨⟨0⟩, "x"⟩) rfl rfl (by decide)
    (Engine.spares_direct _ _) rfl ⟨0⟩ _).1⟩

/-- A field that the nearest declaration makes private is read all the same if another class
declares it as public. -/
theorem not_private_field_unobserved :
    ¬ ∀ (config : Config) (c : Host.Class) (h : Handler) (s : Slot) (w w₁ : World) (b : Value)
        (r : Ref .handler) (requests : List Request),
      h.descriptor = .build config c false → h.target = .object s.object →
      w.class? h.target = some c → w.data? h.target = some .plain →
      (∃ f, c.nearestField? s.name = some f ∧ f.isPublic = false) →
      w.setField h.target s.name b = (true, w₁) →
      (Request.runAll (Engine.direct config) r h requests w₁).1 =
        (Request.runAll (Engine.direct config) r h requests w).1 := by
  intro hall
  have hanswers := hall Config.standard withHiddenField (onlyObjectHandler withHiddenField)
    ⟨⟨0⟩, "x"⟩ (World.ofObject withHiddenField) _ (.boolean true) ⟨0⟩ [.get (.string "x")] rfl rfl
    rfl rfl ⟨⟨"x", false, false, false⟩, by decide, rfl⟩ rfl
  have hnull : (Request.runAll (Engine.direct Config.standard) ⟨0⟩
      (onlyObjectHandler withHiddenField) [.get (.string "x")]
      (World.ofObject withHiddenField)).1 = [.ok (.value .null)] := rfl
  rw [hnull] at hanswers
  cases hanswers

end Membrane
