import Membrane.Engine
import Mathlib.Tactic.Common

/-!
# What a function does itself

A function that takes a callback runs in turns with code that may do anything, its own list and the
ledger included. What the function itself has done is told by its deeds: the calls it made, the
values it released, the storage it wrote. A `Course` leads from world to world through the deeds of
a function. Before, between and after them the ledger and the host objects stay as they are, so
whatever else became of them is the work of the callables that were called.

`Accounted` says of a computation started in a world that its whole run is such a course, with deeds
and an outcome as specified. The rules for it follow the computation from its first step on.

## Main definitions

* `Outcome`, `World.Alike`.
* `Deed`, `Deed.Leads`, `Deed.calls`, `Deed.results`, `Deed.released`, `Deed.writes`.
* `Course`: what leads from one world to another by some deeds.
* `Run.Accounted`: a computation whose run is a course of deeds as specified.
* `Run.Quiet`: a computation without deeds that comes to an end.
* `Run.Looks`: a computation that leaves the world as it is.

## Main results

* `Run.Accounted.bind`, `Run.Accounted.bind_quiet`, `Run.Accounted.bind_call`,
  `Run.Accounted.bind_release`, `Run.Accounted.scope`, `Run.Accounted.onHalt`.
* `Course.ledger`: what the ledger tells of a course.
* `Course.keeps`, `Course.objects_eq`: what calls keep of the host objects, a course without writes
  keeps.
-/

namespace Membrane

/-- How a computation ends. -/
abbrev Outcome (α : Type) := EStateM.Result Halt World α

/-- The world reached. -/
def Outcome.world {α : Type} : Outcome α → World
  | .ok _ w | .error _ w => w

@[simp] theorem Outcome.world_ok {α : Type} (a : α) (w : World) :
    Outcome.world (.ok a w : Outcome α) = w :=
  rfl

@[simp] theorem Outcome.world_error {α : Type} (e : Halt) (w : World) :
    Outcome.world (.error e w : Outcome α) = w :=
  rfl

@[simp] theorem Outcome.world_holdOnly {α : Type} (held : List Node) (r : Outcome α) :
    Outcome.world (Run.holdOnly held r) = { r.world with held := held } := by
  cases r <;> rfl

/-- Whether a computation comes to an end, be it with a fault. -/
def Outcome.ends {α : Type} : Outcome α → Bool
  | .error .exhausted _ => false
  | _ => true

theorem Outcome.ends_error_iff {α : Type} {e : Halt} {w : World} :
    Outcome.ends (.error e w : Outcome α) = false ↔ e = .exhausted := by
  cases e <;> simp [Outcome.ends]

/-- Worlds with the same ledger, host objects and static fields. -/
structure World.Alike (w w' : World) : Prop where
  /-- The ledger is the same. -/
  ledger : w'.ledger = w.ledger
  /-- The host objects are the same. -/
  objects : w'.objects = w.objects
  /-- The static fields are the same. -/
  statics : w'.statics = w.statics

/-- Storage is not in the ledger. -/
theorem World.ledger_putData (w : World) (v : Host.Value) (data : Host.Data) :
    (w.putData v data).ledger = w.ledger := by
  cases v <;> rfl

namespace World.Alike

variable {w w₁ w₂ : World}

theorem refl (w : World) : w.Alike w := ⟨rfl, rfl, rfl⟩

theorem trans (h : w.Alike w₁) (h' : w₁.Alike w₂) : w.Alike w₂ :=
  ⟨h'.ledger.trans h.ledger, h'.objects.trans h.objects, h'.statics.trans h.statics⟩

/-- What is held does not matter. -/
theorem hold (h : w.Alike w₁) (held : List Node) : w.Alike { w₁ with held := held } :=
  ⟨h.ledger, h.objects, h.statics⟩

end World.Alike

/-! ### Deeds -/

/-- Something a function does that scripts, the engine or the host objects are concerned with. -/
inductive Deed where
  /-- It calls a script value, which ends in an outcome. -/
  | call (c : Call) (outcome : Outcome Script.Value)
  /-- It releases a value. -/
  | release (v : Script.Value)
  /-- It replaces the storage of a host object. -/
  | write (target : Host.Value) (data : Host.Data)

namespace Deed

/-- Done in one world, the deed leads to another. -/
def Leads (invoke : Invoke) (w w' : World) : Deed → Prop
  | call c outcome => Run.call invoke c.callee c.this c.args w = outcome ∧ outcome.world = w'
  | release v => Run.release v w = .ok () w'
  | write target data => w.putData target data = w'

/-- The calls among some deeds, with their outcomes. -/
def calls : List Deed → List (Call × Outcome Script.Value)
  | [] => []
  | call c outcome :: ds => (c, outcome) :: calls ds
  | _ :: ds => calls ds

/-- What the calls that succeeded returned. -/
def results : List Deed → List Script.Value
  | [] => []
  | call _ (.ok v _) :: ds => v :: results ds
  | _ :: ds => results ds

/-- The released values. -/
def released : List Deed → List Script.Value
  | [] => []
  | release v :: ds => v :: released ds
  | _ :: ds => released ds

/-- The writes among some deeds. -/
def writes : List Deed → List (Host.Value × Host.Data)
  | [] => []
  | write target data :: ds => (target, data) :: writes ds
  | _ :: ds => writes ds

section Append

variable (ds ds' : List Deed)

@[simp] theorem calls_append : calls (ds ++ ds') = calls ds ++ calls ds' := by
  induction ds with
  | nil => rfl
  | cons d ds ih => cases d <;> simp [calls, ih]

@[simp] theorem results_append : results (ds ++ ds') = results ds ++ results ds' := by
  induction ds with
  | nil => rfl
  | cons d ds ih =>
    cases d with
    | call c outcome => cases outcome <;> simp [results, ih]
    | release v => exact ih
    | write target data => exact ih

@[simp] theorem released_append : released (ds ++ ds') = released ds ++ released ds' := by
  induction ds with
  | nil => rfl
  | cons d ds ih => cases d <;> simp [released, ih]

end Append

section Releases

variable (vs : List Script.Value)

@[simp] theorem calls_map_release : calls (vs.map release) = [] := by
  induction vs with
  | nil => rfl
  | cons v vs ih => exact ih

@[simp] theorem results_map_release : results (vs.map release) = [] := by
  induction vs with
  | nil => rfl
  | cons v vs ih => exact ih

@[simp] theorem released_map_release : released (vs.map release) = vs := by
  induction vs with
  | nil => rfl
  | cons v vs ih => exact congrArg (v :: ·) ih

@[simp] theorem writes_map_release : writes (vs.map release) = [] := by
  induction vs with
  | nil => rfl
  | cons v vs ih => exact ih

end Releases

end Deed

/-! ### Courses -/

/-- From one world to another by some deeds, with nothing done to ledger and host objects before,
between and after them. -/
inductive Course (invoke : Invoke) : World → List Deed → World → Prop
  | rest {w w' : World} (h : w.Alike w') : Course invoke w [] w'
  | step {w w₁ w₂ w' : World} {d : Deed} {ds : List Deed} (h : w.Alike w₁)
      (hd : d.Leads invoke w₁ w₂) (hds : Course invoke w₂ ds w') : Course invoke w (d :: ds) w'

namespace Course

variable {invoke : Invoke} {w w₁ w' : World} {ds ds' : List Deed}

/-- A course may start with a quiet stretch. -/
theorem of_alike (h : w.Alike w₁) (hds : Course invoke w₁ ds w') : Course invoke w ds w' := by
  cases hds with
  | rest h' => exact .rest (h.trans h')
  | step h' hd hds => exact .step (h.trans h') hd hds

/-- A course may end with a quiet stretch. -/
theorem alike (hds : Course invoke w ds w₁) (h : w₁.Alike w') : Course invoke w ds w' := by
  induction hds with
  | rest h' => exact .rest (h'.trans h)
  | step h' hd _ ih => exact .step h' hd (ih h)

theorem append (h : Course invoke w ds w₁) (h' : Course invoke w₁ ds' w') :
    Course invoke w (ds ++ ds') w' := by
  induction h with
  | rest h => exact h'.of_alike h
  | step h hd _ ih => exact .step h hd (ih h')

/-- A single deed. -/
theorem single {d : Deed} (hd : d.Leads invoke w w') : Course invoke w [d] w' :=
  .step (.refl w) hd (.rest (.refl w'))

/-- A call enters itself in the ledger before anything is called. -/
theorem ledger_call {c : Call}
    (hinvoke : ∀ r this args (w : World),
      (Outcome.world (invoke r this args w)).ledger = w.ledger) :
    (Outcome.world (Run.call invoke c.callee c.this c.args w)).ledger =
      { w.ledger with calls := c :: w.ledger.calls } := by
  obtain ⟨callee, this, args⟩ := c
  cases callee with
  | function r =>
    change (Outcome.world (Run.holdOnly w.held (invoke r this args _))).ledger = _
    rw [Outcome.world_holdOnly]
    exact hinvoke r this args _
  | _ => rfl

/-- Where callables have no deeds of their own, the ledger tells the calls and the releases of the
course and nothing else. -/
theorem ledger (h : Course invoke w ds w')
    (hinvoke : ∀ r this args (w : World),
      (Outcome.world (invoke r this args w)).ledger = w.ledger) :
    w'.ledger.calls = ((Deed.calls ds).map Prod.fst).reverse ++ w.ledger.calls ∧
      w'.ledger.released = (Deed.released ds).reverse ++ w.ledger.released := by
  induction h with
  | rest h => simp [h.ledger, Deed.calls, Deed.released]
  | @step w w₁ w₂ w' d ds h hd _ ih =>
    cases d with
    | call c outcome =>
      obtain ⟨rfl, rfl⟩ := hd
      rw [ih.1, ih.2, ledger_call hinvoke, h.ledger]
      simp [Deed.calls, Deed.released]
    | release v =>
      cases hd
      rw [ih.1, ih.2]
      simp [Deed.calls, Deed.released, h.ledger]
    | write target data =>
      cases hd
      rw [ih.1, ih.2, World.ledger_putData, h.ledger]
      exact ⟨rfl, rfl⟩

section Keeps

variable {P : World → Prop} (hP : ∀ w w' : World, w'.objects = w.objects → P w → P w')
include hP

/-- What callables keep, calls of them keep, as far as it depends on the host objects only. -/
theorem keeps_call {c : Call}
    (hinvoke : ∀ r, c.callee = .function r →
      ∀ w, P w → P (Outcome.world (invoke r c.this c.args w)))
    (hw : P w) : P (Outcome.world (Run.call invoke c.callee c.this c.args w)) := by
  obtain ⟨callee, this, args⟩ := c
  cases callee with
  | function r =>
    change P (Outcome.world (Run.holdOnly w.held (invoke r this args _)))
    rw [Outcome.world_holdOnly]
    exact hP (Outcome.world (invoke r this args _)) _ rfl (hinvoke r rfl _ (hP w _ rfl hw))
  | _ => exact hP w _ rfl hw

/-- What its calls keep, a course without writes keeps, as far as it depends on the host objects
only. -/
theorem keeps (h : Course invoke w ds w') (hwrites : Deed.writes ds = [])
    (hcalls : ∀ c ∈ Deed.calls ds, ∀ r, c.1.callee = .function r →
      ∀ w, P w → P (Outcome.world (invoke r c.1.this c.1.args w)))
    (hw : P w) : P w' := by
  induction h with
  | @rest w w' h => exact hP w w' h.objects hw
  | @step w w₁ w₂ w' d ds h hd _ ih =>
    have hw₁ : P w₁ := hP w w₁ h.objects hw
    cases d with
    | call c outcome =>
      obtain ⟨rfl, rfl⟩ := hd
      obtain ⟨hc, hcalls⟩ := List.forall_mem_cons.1 hcalls
      exact ih hwrites hcalls (keeps_call hP hc hw₁)
    | release v =>
      cases hd
      exact ih hwrites hcalls (hP w₁ _ rfl hw₁)
    | write target data => cases hwrites

end Keeps

/-- Where callables leave the host objects alone, a course without writes leaves them alone. -/
theorem objects_eq (h : Course invoke w ds w') (hwrites : Deed.writes ds = [])
    (hinvoke : ∀ r this args (w : World),
      (Outcome.world (invoke r this args w)).objects = w.objects) :
    w'.objects = w.objects :=
  h.keeps (P := fun w₁ => w₁.objects = w.objects) (fun _ _ heq hw => heq.trans hw) hwrites
    (fun c _ r _ w₁ hw => (hinvoke r c.1.this c.1.args w₁).trans hw) rfl

end Course

/-! ### Computations without deeds -/

namespace Run

variable {α β : Type}

section Bind

variable {x : Run α} {f : α → Run β} {w w₁ : World}

theorem get_bind (f : World → Run β) (w : World) : (MonadState.get >>= f) w = f w w := rfl

theorem bind_of_ok {a : α} (h : x w = .ok a w₁) : (x >>= f) w = f a w₁ := by
  change EStateM.bind x f w = _
  simp only [EStateM.bind, h]

theorem bind_of_error {e : Halt} (h : x w = .error e w₁) : (x >>= f) w = .error e w₁ := by
  change EStateM.bind x f w = _
  simp only [EStateM.bind, h]

/-- A computation that succeeds has a first part that succeeds. -/
theorem bind_eq_ok {b : β} {w' : World} (h : (x >>= f) w = .ok b w') :
    ∃ a w₁, x w = .ok a w₁ ∧ f a w₁ = .ok b w' := by
  cases hw : x w with
  | ok a w₁ =>
    rw [bind_of_ok hw] at h
    exact ⟨a, w₁, rfl, h⟩
  | error e w₁ =>
    rw [bind_of_error hw] at h
    cases h

/-- A computation fails in its first part or later. -/
theorem bind_eq_error {e : Halt} {w' : World} (h : (x >>= f) w = .error e w') :
    x w = .error e w' ∨ ∃ a w₁, x w = .ok a w₁ ∧ f a w₁ = .error e w' := by
  cases hw : x w with
  | ok a w₁ =>
    rw [bind_of_ok hw] at h
    exact .inr ⟨a, w₁, rfl, h⟩
  | error e w₁ =>
    rw [bind_of_error hw] at h
    cases h
    exact .inl rfl

/-- A scope succeeds where what it runs does. -/
theorem ok_of_scope {a : α} {w' : World} (h : Run.scope x w = .ok a w') :
    ∃ w₁, x w = .ok a w₁ := by
  unfold Run.scope at h
  cases hw : x w with
  | ok b w₁ =>
    rw [hw] at h
    cases h
    exact ⟨w₁, rfl⟩
  | error e w₁ =>
    rw [hw] at h
    cases h

/-- Computations that start alike and go on alike are alike. -/
theorem bind_eq_bind {y : Run α} {g : α → Run β} (hx : x w = y w)
    (hf : ∀ a w₁, x w = .ok a w₁ → f a w₁ = g a w₁) : (x >>= f) w = (y >>= g) w := by
  cases hw : x w with
  | ok a w₁ => rw [bind_of_ok hw, bind_of_ok (hx.symm.trans hw), hf a w₁ hw]
  | error e w₁ => rw [bind_of_error hw, bind_of_error (hx.symm.trans hw)]

end Bind

/-- A computation that touches neither ledger nor host objects and comes to an end. -/
structure Quiet (x : Run α) : Prop where
  /-- The world reached is like the one it started from. -/
  alike : ∀ w : World, w.Alike (Outcome.world (x w))
  /-- It is not cut off. -/
  ends : ∀ w w' : World, x w ≠ .error .exhausted w'

namespace Quiet

theorem pure (a : α) : (Pure.pure a : Run α).Quiet := ⟨.refl, nofun⟩

theorem raise (f : Fault) : (Run.raise f : Run α).Quiet := ⟨.refl, nofun⟩

theorem get : (MonadState.get : Run World).Quiet := ⟨.refl, nofun⟩

theorem of_modify {change : World → World} (h : ∀ w : World, w.Alike (change w)) :
    (modify change : Run Unit).Quiet :=
  ⟨h, nofun⟩

theorem bind {x : Run α} {f : α → Run β} (hx : x.Quiet) (hf : ∀ a, (f a).Quiet) :
    (x >>= f).Quiet := by
  constructor
  · intro w
    have h := hx.alike w
    cases hw : x w with
    | ok a w₁ =>
      rw [hw] at h
      rw [bind_of_ok hw]
      exact h.trans ((hf a).alike w₁)
    | error e w₁ =>
      rw [hw] at h
      rw [bind_of_error hw]
      exact h
  · intro w w' hexh
    cases hw : x w with
    | ok a w₁ =>
      rw [bind_of_ok hw] at hexh
      exact (hf a).ends w₁ w' hexh
    | error e w₁ =>
      rw [bind_of_error hw] at hexh
      cases hexh
      exact hx.ends w w' hw

end Quiet

/-- A computation that leaves the world as it is. It may have no result. -/
def Looks (x : Run α) : Prop := ∀ w : World, Outcome.world (x w) = w

namespace Looks

theorem pure (a : α) : (Pure.pure a : Run α).Looks := fun _ => rfl

theorem get : (MonadState.get : Run World).Looks := fun _ => rfl

theorem raiseAbout (v : Host.Value) (fault : String → Fault) (locked : List (Ref .object)) :
    (Run.raiseAbout v fault locked : Run α).Looks := fun _ => rfl

theorem bind {x : Run α} {f : α → Run β} (hx : x.Looks) (hf : ∀ a, (f a).Looks) :
    (x >>= f).Looks := by
  intro w
  have h := hx w
  cases hw : x w with
  | ok a w₁ =>
    rw [hw] at h
    rw [bind_of_ok hw, hf a w₁]
    exact h
  | error e w₁ =>
    rw [hw] at h
    rw [bind_of_error hw]
    exact h

theorem world_eq_of_ok {x : Run α} (hx : x.Looks) {a : α} {w w' : World} (h : x w = .ok a w') :
    w' = w := by
  have hworld := hx w
  rwa [h] at hworld

theorem world_eq_of_error {x : Run α} (hx : x.Looks) {e : Halt} {w w' : World}
    (h : x w = .error e w') : w' = w := by
  have hworld := hx w
  rwa [h] at hworld

theorem alike {x : Run α} (hx : x.Looks) (w : World) : w.Alike (Outcome.world (x w)) := by
  rw [hx w]
  exact .refl w

end Looks

/-! ### Accounts -/

/-- The run of a computation from a world is a course of deeds that, with the outcome, is as
specified. -/
def Accounted (invoke : Invoke) (x : Run α) (w : World) (Q : List Deed → Outcome α → Prop) : Prop :=
  ∃ ds, Course invoke w ds (Outcome.world (x w)) ∧ Q ds (x w)

namespace Accounted

variable {invoke : Invoke} {x : Run α} {f : α → Run β} {w : World}
  {P P' : List Deed → Outcome α → Prop} {Q : List Deed → Outcome β → Prop}

theorem mono (h : x.Accounted invoke w P) (hP : ∀ ds r, P ds r → P' ds r) :
    x.Accounted invoke w P' := by
  obtain ⟨ds, hds, h⟩ := h
  exact ⟨ds, hds, hP ds _ h⟩

theorem of_quiet (hx : x.Quiet) (h : P [] (x w)) : x.Accounted invoke w P :=
  ⟨[], .rest (hx.alike w), h⟩

theorem pure {a : α} (h : P [] (.ok a w)) : (Pure.pure a : Run α).Accounted invoke w P :=
  of_quiet (.pure a) h

/-- A computation goes on where its first part succeeds. -/
theorem bind (hx : x.Accounted invoke w P)
    (hok : ∀ ds a w₁, P ds (.ok a w₁) →
      (f a).Accounted invoke w₁ fun ds' r => Q (ds ++ ds') r)
    (herr : ∀ ds e w₁, P ds (.error e w₁) → Q ds (.error e w₁)) :
    (x >>= f).Accounted invoke w Q := by
  obtain ⟨ds, hds, h⟩ := hx
  cases hw : x w with
  | ok a w₁ =>
    rw [hw] at hds h
    obtain ⟨ds', hds', h'⟩ := hok ds a w₁ h
    rw [← bind_of_ok hw (f := f)] at hds' h'
    exact ⟨ds ++ ds', hds.append hds', h'⟩
  | error e w₁ =>
    rw [hw] at hds h
    refine ⟨ds, ?_⟩
    rw [bind_of_error hw]
    exact ⟨hds, herr ds e w₁ h⟩

/-- The first part of a computation reads and changes nothing. -/
theorem bind_of_ok {a : α} (h : x w = .ok a w) (hf : (f a).Accounted invoke w Q) :
    (x >>= f).Accounted invoke w Q := by
  unfold Accounted at hf ⊢
  rw [Run.bind_of_ok h]
  exact hf

/-- The first part of a computation has no deeds. -/
theorem bind_quiet (hx : x.Quiet)
    (hok : ∀ a w₁, w.Alike w₁ → x w = .ok a w₁ → (f a).Accounted invoke w₁ Q)
    (herr : ∀ g w₁, w.Alike w₁ → x w = .error (.fault g) w₁ → Q [] (.error (.fault g) w₁)) :
    (x >>= f).Accounted invoke w Q := by
  have halike := hx.alike w
  refine bind (P := fun ds r => ds = [] ∧ x w = r) ⟨[], .rest halike, rfl, rfl⟩ ?_ ?_
  · rintro ds a w₁ ⟨rfl, hw⟩
    rw [hw] at halike
    exact hok a w₁ halike hw
  · rintro ds e w₁ ⟨rfl, hw⟩
    rw [hw] at halike
    cases e with
    | fault g => exact herr g w₁ halike hw
    | exhausted => exact absurd hw (hx.ends w w₁)

/-- What is told of the outcome is told of the one that the computation has. -/
theorem and_eq (hx : x.Accounted invoke w P) :
    x.Accounted invoke w fun ds r => P ds r ∧ x w = r := by
  obtain ⟨ds, hds, h⟩ := hx
  exact ⟨ds, hds, h, rfl⟩

theorem of_looks (hx : x.Looks) (h : P [] (x w)) : x.Accounted invoke w P :=
  ⟨[], .rest (hx.alike w), h⟩

/-- The first part of a computation only looks at the world. -/
theorem bind_looks (hx : x.Looks)
    (hok : ∀ a, x w = .ok a w → (f a).Accounted invoke w Q)
    (herr : ∀ e, x w = .error e w → Q [] (.error e w)) :
    (x >>= f).Accounted invoke w Q := by
  have hworld := hx w
  refine bind (P := fun ds r => ds = [] ∧ x w = r) ⟨[], .rest (hx.alike w), rfl, rfl⟩ ?_ ?_
  · rintro ds a w₁ ⟨rfl, hw⟩
    rw [hw] at hworld
    obtain rfl : w₁ = w := hworld
    exact hok a hw
  · rintro ds e w₁ ⟨rfl, hw⟩
    rw [hw] at hworld
    obtain rfl : w₁ = w := hworld
    exact herr e hw

/-- The first part of a computation is a call. -/
theorem bind_call {g : Script.Value → Run β} {callee this : Script.Value}
    {args : List Script.Value}
    (hok : ∀ v w₁, (g v).Accounted invoke w₁ fun ds r =>
      Q (.call ⟨callee, this, args⟩ (.ok v w₁) :: ds) r)
    (herr : ∀ e w₁, Q [.call ⟨callee, this, args⟩ (.error e w₁)] (.error e w₁)) :
    (Run.call invoke callee this args >>= g).Accounted invoke w Q := by
  refine bind (P := fun ds r => ds = [.call ⟨callee, this, args⟩ r])
    ⟨[.call ⟨callee, this, args⟩ (Run.call invoke callee this args w)], .single ⟨rfl, rfl⟩, rfl⟩
    ?_ ?_
  · rintro ds v w₁ rfl
    exact hok v w₁
  · rintro ds e w₁ rfl
    exact herr e w₁

/-- The first part of a computation is a release. -/
theorem bind_release {g : Unit → Run β} {v : Script.Value}
    (h : ∀ w₁, w₁.objects = w.objects → (g ()).Accounted invoke w₁ fun ds r =>
      Q (.release v :: ds) r) :
    (Run.release v >>= g).Accounted invoke w Q := by
  refine bind (P := fun ds r => ds = [.release v] ∧ Run.release v w = r)
    ⟨[.release v], .single rfl, rfl, rfl⟩ ?_ ?_
  · rintro ds ⟨⟩ w₁ ⟨rfl, hw⟩
    cases hw
    exact h _ rfl
  · rintro ds e w₁ ⟨rfl, hw⟩
    cases hw

theorem scope (h : x.Accounted invoke w fun ds r => P ds (Run.holdOnly w.held r)) :
    (Run.scope x).Accounted invoke w P := by
  obtain ⟨ds, hds, h⟩ := h
  refine ⟨ds, hds.alike ?_, h⟩
  rw [Run.scope, Outcome.world_holdOnly]
  exact (World.Alike.refl _).hold _

/-- What is done where a computation halts comes after what it did. -/
theorem onHalt {cleanup : Run Unit} (hx : x.Accounted invoke w P)
    (hok : ∀ ds a w₁, P ds (.ok a w₁) → P' ds (.ok a w₁))
    (herr : ∀ ds e w₁, P ds (.error e w₁) →
      cleanup.Accounted invoke w₁ fun ds' r => P' (ds ++ ds') (.error e r.world)) :
    (x.onHalt cleanup).Accounted invoke w P' := by
  obtain ⟨ds, hds, h⟩ := hx
  cases hw : x w with
  | ok a w₁ =>
    have hrun : x.onHalt cleanup w = .ok a w₁ := by simp only [Run.onHalt, hw]
    rw [hw] at hds h
    exact ⟨ds, hrun ▸ hds, hrun ▸ hok ds a w₁ h⟩
  | error e w₁ =>
    rw [hw] at hds h
    obtain ⟨ds', hds', h'⟩ := herr ds e w₁ h
    have hrun : x.onHalt cleanup w = .error e (Outcome.world (cleanup w₁)) := by
      simp only [Run.onHalt, hw]
      cases cleanup w₁ <;> rfl
    exact ⟨ds ++ ds', hrun ▸ hds.append hds', hrun ▸ h'⟩

end Accounted

end Run

end Membrane
