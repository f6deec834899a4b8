import Membrane.Proofs.ArrayCopies
import Membrane.Proofs.Describing
import Membrane.Proofs.RoundTrip
import Membrane.Proofs.Proceeding

/-!
# Copies of script arrays read back

The host holds a script array as a list, and shows the list to the script as a proxy. A script that
wants its array back asks the proxy for its form for serialisation, which is an array of the items,
and goes on with the proxies among them wherever it had an array. What it gets is the array as it
was when it was copied, level by level, whatever has become of the script's arrays since. Only
`undefined` has become null, and a proxy that stood for a primitive has become the primitive. All
other proxies have become proxies of the same objects.

## Main definitions

* `Engine.callOf`: a function of a proxy is called by its name.
* `Engine.readBack`: a copy is read back along the array it is a copy of.
* `World.ReadsAs`: what has become of a script value that was copied and read back.
* `World.OnlyReads`: what reading back does to a world.
* `World.Presents`: what a script sees whose proxies have the right handlers.

## Main results

* `Engine.callOf_toJSON`: one level.
* `readBack_eq_ok`: all levels.
* `arrays_cross_as_copies`: script arrays are carried to the host as deep copies.
-/

namespace Membrane

open Host (Value)
open Prototype (ListFunction)

/-! ### Reading back -/

/-- A script calls the function that a proxy gives for a name. -/
def Engine.callOf (eng : Engine) (depth : Nat) (p : Ref .handler) (name : String)
    (args : List Script.Value) : Run Script.Value := do
  match (← get).handlers.get? p with
  | none => Run.raise .released
  | some h => eng.call depth (← eng.getProperty h (.string name)) (.proxy p) args

/-- The items of a script array. -/
def Run.itemsOf (v : Script.Value) : Run (List Script.Value) := do
  match v with
  | .array r => return ((← get).arrays.get? r).getD []
  | _ => return []

/-- A script reads a copy back. The value it has of the host is the second one, and it goes on to
the next level wherever the first one, as it was in a world, has an array. -/
def Engine.readBack (eng : Engine) (depth : Nat) (w : World) (n : Nat) (s x : Script.Value) :
    Run Script.Value :=
  match n, s, x with
  | n + 1, .array r, .proxy p => do
    let level ← Run.itemsOf (← eng.callOf depth p "toJSON" [])
    let items ← (((w.arrays.get? r).getD []).zip level).mapM fun item =>
      eng.readBack depth w n item.1 item.2
    Run.newScriptArray items
  | _, _, x => return x

/-- The value a proxy stands for. -/
def World.targetOf (w : World) (p : Ref .handler) : Value :=
  (w.handlers.get? p).elim .null Handler.target

/-- Whether a script value comes back from the host as itself: all do but `undefined`, arrays and
proxies. -/
def Script.Value.staysItself : Script.Value → Bool
  | .undefined | .array _ | .proxy _ => false
  | _ => true

/-- What has become of a script value of the first world that was copied and read back. -/
inductive World.ReadsAs (w w' : World) : Script.Value → Script.Value → Prop
  /-- Null has taken the place of `undefined`. -/
  | undefined : ReadsAs w w' .undefined .null
  /-- Primitives, symbols, plain objects and callables are what they were. -/
  | itself {s : Script.Value} (hs : s.staysItself = true) : ReadsAs w w' s s
  /-- A proxy of an object has become a proxy of the same object. -/
  | proxy {p p' : Ref .handler} {h' : Handler} {o : Ref .object}
    (htarget : w.targetOf p = .object o) (hp' : w'.handlers.get? p' = some h')
    (htarget' : h'.target = .object o) :
    ReadsAs w w' (.proxy p) (.proxy p')
  /-- A proxy of a primitive has become the primitive. -/
  | primitive {p : Ref .handler} {s : Script.Value}
    (htarget : (w.targetOf p).scriptPrimitive? = some s) : ReadsAs w w' (.proxy p) s
  /-- An array has become an array as long, of what its items have become, in order. -/
  | array {r r' : Ref .array} {items : List Script.Value} (hr' : w'.arrays.get? r' = some items)
    (hlength : ((w.arrays.get? r).getD []).length = items.length)
    (hitems : ∀ s s', (s, s') ∈ ((w.arrays.get? r).getD []).zip items → ReadsAs w w' s s') :
    ReadsAs w w' (.array r) (.array r')

/-- No host object and no script array is touched, handlers are as they were, and the descriptors
that are kept go on to be right. -/
structure World.OnlyReads (config : Config) (w w' : World) : Prop where
  /-- The host objects. -/
  objects : w'.objects = w.objects
  /-- The script arrays. -/
  arrays : w.KeepsArrays w'
  /-- The handlers. -/
  handlers : ∀ p h, w.handlers.get? p = some h → w'.handlers.get? p = some h
  /-- The descriptors. -/
  descriptors : Descriptor.AreBuilt config w.descriptors → Descriptor.AreBuilt config w'.descriptors

instance (config : Config) : IsPreorder World (World.OnlyReads config) where
  refl w := ⟨rfl, refl w, fun _ _ h => h, id⟩
  trans w w₁ w₂ h h' := ⟨h'.objects.trans h.objects, IsTrans.trans w w₁ w₂ h.arrays h'.arrays,
    fun p k hp => h'.handlers p k (h.handlers p k hp), fun hw => h'.descriptors (h.descriptors hw)⟩

/-- A script sees a host value as it should: a proxy of an object has a handler that shows what it
should. -/
structure World.Presents (config : Config) (w : World) (v : Value) (x : Script.Value) : Prop where
  /-- The script sees the value. -/
  shows : w.Shows v x
  /-- The handler. -/
  handler : ∀ o p, v = .object o → x = .proxy p →
    ∃ h, w.handlers.get? p = some h ∧ h.target = .object o ∧ h.Shows config w

namespace World

variable {config : Config} {w w₁ w₂ : World} {n : Nat} {s s' x : Script.Value} {v : Value}
  {lists : List (Ref .object)}

/-- All but host objects, script arrays, handlers and descriptors may change. -/
theorem OnlyReads.of_eq (hobjects : w₁.objects = w.objects) (harrays : w₁.arrays = w.arrays)
    (hhandlers : w₁.handlers = w.handlers) (hdescriptors : w₁.descriptors = w.descriptors) :
    w.OnlyReads config w₁ :=
  ⟨hobjects, .of_eq harrays, fun _ _ hp => by rwa [hhandlers], fun hw => by rwa [hdescriptors]⟩

/-- What is seen as it should is seen so when there was more reading. -/
theorem Presents.later (h : w.Presents config v x) (honly : w.OnlyReads config w₁) :
    w₁.Presents config v x where
  shows := h.shows.later fun p h₁ hp => ⟨h₁, honly.handlers p h₁ hp, rfl⟩
  handler o p hv hx := by
    obtain ⟨h₁, hp, htarget, hshows⟩ := h.handler o p hv hx
    exact ⟨h₁, honly.handlers p h₁ hp, htarget, hshows.later (.of_objects_eq honly.objects)⟩

/-- What a value has become it still is when there was more reading. -/
theorem ReadsAs.later (h : w.ReadsAs w₁ s s') (honly : w₁.OnlyReads config w₂) :
    w.ReadsAs w₂ s s' := by
  induction h with
  | undefined => exact .undefined
  | itself hs => exact .itself hs
  | proxy htarget hp' htarget' =>
    exact .proxy htarget (honly.handlers _ _ hp') htarget'
  | primitive htarget => exact .primitive htarget
  | array hr' hlength _ ih => exact .array (honly.arrays _ _ hr') hlength ih

/-- What a script sees of a value that is no array, after it was carried to the host. -/
theorem readsAs_of_shows (hw : w.AnswersForHosts) (hs : ∀ r, s ≠ .array r)
    (h : s.carryToHost n w = .ok v w) (hx : w₁.Shows v x) : w.ReadsAs w₁ s x := by
  cases s with
  | array r => exact absurd rfl (hs r)
  | proxy p =>
    rw [carryToHost_proxy] at h
    cases h
    obtain ⟨c, hclass⟩ | hnull :
        (∃ c, w.class? (w.targetOf p) = some c) ∨ w.targetOf p = .null := by
      unfold targetOf
      cases hp : w.handlers.get? p with
      | none => exact .inr rfl
      | some h₁ => exact .inl (hw p h₁ hp)
    · change w₁.Shows (w.targetOf p) x at hx
      generalize htarget : w.targetOf p = target at hx hclass
      cases hx with
      | primitive h => exact .primitive (htarget ▸ h)
      | held s => cases hclass
      | object hr' htarget' => exact .proxy htarget hr' htarget'
    · change w₁.Shows (w.targetOf p) x at hx
      rw [hnull] at hx
      cases hx with
      | primitive h => exact .primitive (hnull ▸ h)
  | undefined =>
    cases n <;> cases h <;> cases hx with
    | primitive h => cases h; exact .undefined
  | symbol | object | function =>
    cases n <;> cases h <;> cases hx with
    | primitive h => cases h
    | held s => exact .itself rfl
  | _ =>
    cases n <;> cases h <;> cases hx with
    | primitive h => cases h; exact .itself rfl

end World

/-! ### One level -/

section Level

variable {eng : Engine} {w : World} {p : Ref .handler} {h : Handler} {o : Ref .object}
  {items : List Value}

/-- The handler of a list that shows what it should serves the list. -/
theorem Handler.Shows.servesList {config : Config} (hshows : h.Shows config w)
    (htarget : h.target = .object o)
    (ho : w.objects.get? o = some (.new Host.Library.list (.list items.toArray))) :
    h.ServesList (.object o) := by
  obtain ⟨c, isStatic, hdescribed, hbuilt⟩ := hshows.descriptor
  have hlist : w.described? (.object o) = some (Host.Library.list, false) := by
    simp [World.described?, World.classRef?, World.class?, World.data?, World.object?,
      Value.object?, ho, Host.Object.new]
  rw [htarget, hlist] at hdescribed
  cases hdescribed
  exact ⟨htarget, config, hbuilt⟩

/-- An object that is there is described. -/
theorem World.Knows.exists_described? (hv : w.Knows (.object o)) :
    ∃ c isStatic, w.described? (.object o) = some (c, isStatic) := by
  obtain ⟨x, hx⟩ := hv o rfl
  unfold World.described?
  cases w.classRef? (.object o) with
  | some c => exact ⟨c, true, rfl⟩
  | none => exact ⟨x.cls, false, by simp [World.class?, hx]⟩

/-- A value whose object is there is carried to the script, which sees it as it should. -/
theorem Engine.toScript_presents (hopen : eng.Open) {v : Value} (hknown : w.Knows v)
    (hbuilt : Descriptor.AreBuilt eng.config w.descriptors) :
    ∃ x w', eng.toScript v w = .ok x w' ∧ w'.Presents eng.config v x ∧
      w.OnlyReads eng.config w' := by
  rw [toScript_eq_carryToScript (hopen.toScript w v)]
  obtain ⟨s, hs⟩ | ⟨s, rfl⟩ | ⟨o, rfl⟩ := crossing_cases v
  · rw [carryToScript_of_primitive hs]
    refine ⟨s, w, rfl, ⟨.primitive hs, fun o p hv => ?_⟩, refl w⟩
    rw [hv] at hs
    cases hs
  · exact ⟨s, w, rfl, ⟨.held s, nofun⟩, refl w⟩
  · obtain ⟨c, isStatic, hdescribed⟩ := hknown.exists_described?
    obtain ⟨ds, hds, hnew⟩ := eng.newHandler_eq_of_described hbuilt hdescribed
    have hmade := Store.get?_alloc_next w.handlers
      ⟨.object o, .build eng.config c isStatic, none, none⟩
    refine ⟨.proxy w.handlers.next, _, Run.bind_of_ok hnew, ⟨.object hmade rfl, ?_⟩,
      ⟨rfl, .of_eq rfl, fun p h hp => Store.get?_alloc_of_some _ hp, fun _ => hds⟩⟩
    intro o' p ho' hp
    cases ho'
    cases hp
    exact ⟨_, hmade, rfl, ⟨⟨c, isStatic, hdescribed, rfl⟩, fun _ keys hkeys => by cases hkeys⟩⟩

/-- So are all values of a list. -/
theorem Engine.toScriptAll_presents (hopen : eng.Open) {vs : List Value}
    (hknown : ∀ v ∈ vs, w.Knows v) (hbuilt : Descriptor.AreBuilt eng.config w.descriptors) :
    ∃ xs w', eng.toScriptAll vs w = .ok xs w' ∧
      List.Forall₂ (w'.Presents eng.config) vs xs ∧ w.OnlyReads eng.config w' := by
  induction vs generalizing w with
  | nil => exact ⟨[], w, rfl, .nil, refl w⟩
  | cons v vs ih =>
    obtain ⟨hv, hvs⟩ := List.forall_mem_cons.1 hknown
    obtain ⟨x, w₁, hx, hpresents, honly⟩ := toScript_presents hopen hv hbuilt
    obtain ⟨xs, w₂, hxs, hall, honly'⟩ :=
      ih (fun u hu => (hvs u hu).congr honly.objects) (honly.descriptors hbuilt)
    refine ⟨x :: xs, w₂, ?_, .cons (hpresents.later honly') hall,
      IsTrans.trans w w₁ w₂ honly honly'⟩
    rw [toScriptAll, List.mapM_cons, Run.bind_of_ok hx]
    exact Run.bind_of_ok hxs

theorem Run.onlyReads_newScriptArray {config : Config} (items : List Script.Value) :
    (Run.newScriptArray items).Within (World.OnlyReads config) :=
  fun w => ⟨rfl, (Run.proceeds_newScriptArray items w).arrays, fun _ _ h => h, id⟩

/-- A function of a proxy that is made when it is asked for is called in a world that differs in
callables, in calls and in what is held. -/
theorem Engine.callOf_eq_perform {name : String} {k : Callable} (eng : Engine)
    (hp : w.handlers.get? p = some h)
    (hget : eng.getProperty h (.string name) w = Run.newFunction k w) (depth : Nat)
    (args : List Script.Value) :
    ∃ w₁, w.OnlyReads eng.config w₁ ∧ eng.callOf (depth + 1) p name args w =
      Run.holdOnly w.held (eng.perform (eng.invoke depth) depth k (.proxy p) args w₁) := by
  refine ⟨World.entered { w with functions := w.functions.alloc k }
    ⟨.function w.functions.next, .proxy p, args⟩, .of_eq rfl rfl rfl rfl, ?_⟩
  unfold callOf
  rw [Run.get_bind, hp]
  refine (Run.bind_of_ok (hget.trans rfl)).trans ?_
  exact eng.call_function _ _ depth (Store.get?_alloc_next _ _)

/-- A script that asks the proxy of a list for its form for serialisation gets a new array of the
items. -/
theorem Engine.callOf_toJSON (hopen : eng.Open)
    (hbuilt : Descriptor.AreBuilt eng.config w.descriptors) (hp : w.handlers.get? p = some h)
    (htarget : h.target = .object o) (hshows : h.Shows eng.config w)
    (ho : w.objects.get? o = some (.new Host.Library.list (.list items.toArray)))
    (hknown : ∀ v ∈ items, w.Knows v) (depth : Nat) :
    ∃ a xs w', eng.callOf (depth + 1) p "toJSON" [] w = .ok (.array a) w' ∧
      w'.arrays.get? a = some xs ∧ List.Forall₂ (w'.Presents eng.config) items xs ∧
      w.OnlyReads eng.config w' := by
  have hserves := hshows.servesList htarget ho
  have hlist : w.list? (.object o) = some items.toArray := by
    simp [World.list?, World.data?, World.object?, Value.object?, ho, Host.Object.new]
  have hmethod : h.descriptor.method? ListFunction.toJSON.name = none := by
    obtain ⟨config, hdescriptor⟩ := hserves.descriptor
    rw [hdescriptor]
    rfl
  obtain ⟨w₁, honly, hcall⟩ :=
    eng.callOf_eq_perform hp (hserves.getProperty_eq_read eng (.inr hmethod) hlist) depth []
  have hitems : listValues (.object o) w₁ = .ok items w₁ := by
    refine listValues_eq_ok ?_
    rwa [World.list?_congr honly.objects]
  obtain ⟨xs, w₂, hxs, hpresents, honly'⟩ := toScriptAll_presents hopen
    (fun v hv => (hknown v hv).congr honly.objects) (honly.descriptors hbuilt)
  have hmade : w₂.OnlyReads eng.config (Outcome.world (Run.newScriptArray xs w₂)) :=
    Run.onlyReads_newScriptArray xs w₂
  have hperform : eng.perform (eng.invoke depth) depth (.prototype (.ofList .toJSON) (.object o))
      (.proxy p) [] w₁ = Run.newScriptArray xs w₂ :=
    (Run.bind_of_ok hitems).trans (Run.bind_of_ok hxs)
  rw [hperform] at hcall
  have hlater : w₂.OnlyReads eng.config
      { Outcome.world (Run.newScriptArray xs w₂) with held := w.held } :=
    IsTrans.trans _ _ _ hmade (.of_eq rfl rfl rfl rfl)
  exact ⟨_, xs, _, hcall, Store.get?_alloc_next _ _, hpresents.imp fun v x hx => hx.later hlater,
    IsTrans.trans _ _ _ (IsTrans.trans _ _ _ honly honly') hlater⟩

end Level

/-! ### All levels -/

section Levels

variable {eng : Engine} {w w₁ w₂ : World} {n : Nat} {s x : Script.Value} {v : Value}
  {lists : List (Ref .object)}

/-- The objects that handlers answer for are there. -/
theorem World.AnswersForHosts.knowsTargets (hw : w.AnswersForHosts) : w.KnowsTargets := by
  intro p h hp o ho
  obtain ⟨c, hc⟩ := hw p h hp
  rw [ho] at hc
  obtain ⟨x, hx, -⟩ := Option.map_eq_some_iff.1 hc
  exact ⟨x, hx⟩

/-- What was copied is there. -/
theorem World.Copies.knows (hw : w.KnowsTargets) (hkeeps : w.KeepsObjects w₁)
    (h : w.Copies w₁ n s v lists) : w₁.Knows v := by
  by_cases hs : ∃ r, s = .array r
  · obtain ⟨r, rfl⟩ := hs
    cases n with
    | zero => exact h.elim
    | succ n =>
      obtain ⟨o, items, parts, rfl, -, -, ho⟩ := h
      intro r' hr'
      cases hr'
      exact ⟨_, ho⟩
  · exact hkeeps v (knows_of_carryToHost hw ((copies_of_ne_array (not_exists.1 hs)).1 h).1)

/-- A value that is no array is at the end of what is read. -/
theorem Engine.readBack_of_ne_array (eng : Engine) (hs : ∀ r, s ≠ .array r) (depth : Nat)
    (w : World) (n : Nat) (x : Script.Value) : eng.readBack depth w n s x = pure x := by
  cases s with
  | array r => exact absurd rfl (hs r)
  | _ => cases n <;> rfl

/-- What a script sees of the copy of a value that is no array is what is read. -/
theorem readBack_leaf_eq_ok (hw : w.AnswersForHosts) (hs : ∀ r, s ≠ .array r) (depth : Nat)
    (hcopies : w.Copies w₁ n s v lists) (hx : w₂.Presents eng.config v x) :
    ∃ s' w₃, eng.readBack depth w n s x w₂ = .ok s' w₃ ∧ w.ReadsAs w₃ s s' ∧
      w₂.OnlyReads eng.config w₃ := by
  rw [eng.readBack_of_ne_array hs]
  exact ⟨x, w₂, rfl, World.readsAs_of_shows hw hs ((World.copies_of_ne_array hs).1 hcopies).1
    hx.shows, refl w₂⟩

/-- Where each item of an array is read back, so are all of them, one after the other. -/
theorem mapM_readBack_eq_ok {depth : Nat} (hread : ∀ (s : Script.Value) (v : Value)
      (lists : List (Ref .object)), w.Copies w₁ n s v lists → ∀ w₂ : World,
      w₂.objects = w₁.objects → Descriptor.AreBuilt eng.config w₂.descriptors →
      ∀ x, w₂.Presents eng.config v x →
      ∃ s' w₃, eng.readBack depth w n s x w₂ = .ok s' w₃ ∧ w.ReadsAs w₃ s s' ∧
        w₂.OnlyReads eng.config w₃)
    {ss : List Script.Value} {vs : List Value} {parts : List (Ref .object)}
    (hitems : InParts (w.Copies w₁ n) ss vs parts) (hobjects : w₂.objects = w₁.objects)
    (hbuilt : Descriptor.AreBuilt eng.config w₂.descriptors) {xs : List Script.Value}
    (hxs : List.Forall₂ (w₂.Presents eng.config) vs xs) :
    ∃ ss' w₃, ((ss.zip xs).mapM fun item => eng.readBack depth w n item.1 item.2) w₂ = .ok ss' w₃ ∧
      List.Forall₂ (w.ReadsAs w₃) ss ss' ∧ w₂.OnlyReads eng.config w₃ := by
  induction hitems generalizing w₂ xs with
  | nil => exact ⟨[], w₂, rfl, .nil, refl w₂⟩
  | @cons s v part ss vs parts hcopies _ ih =>
    cases hxs with
    | @cons _ x _ xs hx hxs =>
      obtain ⟨s', w₃, hs', hreads, honly⟩ := hread s v part hcopies w₂ hobjects hbuilt x hx
      obtain ⟨ss', w₄, hss', hreads', honly'⟩ := ih (honly.objects.trans hobjects)
        (honly.descriptors hbuilt) (hxs.imp fun u y hy => hy.later honly)
      refine ⟨s' :: ss', w₄, ?_, .cons (hreads.later honly') hreads',
        IsTrans.trans w₂ w₃ w₄ honly honly'⟩
      rw [List.zip_cons_cons, List.mapM_cons, Run.bind_of_ok hs', Run.bind_of_ok hss']
      rfl

/-- What a script sees of a copy is read back level by level. -/
theorem readBack_eq_ok (hopen : eng.Open) (hw : w.AnswersForHosts) (hkeeps : w.KeepsObjects w₁)
    (depth : Nat) (hcopies : w.Copies w₁ n s v lists) (hobjects : w₂.objects = w₁.objects)
    (hbuilt : Descriptor.AreBuilt eng.config w₂.descriptors)
    (hx : w₂.Presents eng.config v x) :
    ∃ s' w₃, eng.readBack (depth + 1) w n s x w₂ = .ok s' w₃ ∧ w.ReadsAs w₃ s s' ∧
      w₂.OnlyReads eng.config w₃ := by
  induction n generalizing s v lists w₂ x with
  | zero =>
    refine readBack_leaf_eq_ok hw ?_ _ hcopies hx
    rintro r rfl
    exact hcopies
  | succ n ih =>
    by_cases hs : ∃ r, s = .array r
    · obtain ⟨r, rfl⟩ := hs
      obtain ⟨o, items, parts, rfl, rfl, hitems, ho⟩ := hcopies
      cases hx.shows with
      | primitive h => cases h
      | @object _ p _ _ _ =>
        obtain ⟨h, hp, htarget, hshows⟩ := hx.handler o p rfl rfl
        rw [← hobjects] at ho
        have hknown : ∀ v ∈ items, w₂.Knows v := hitems.forall_right fun s v part hcopies =>
          (hcopies.knows hw.knowsTargets hkeeps).congr hobjects
        obtain ⟨a, xs, w₃, hlevel, ha, hxs, honly⟩ :=
          Engine.callOf_toJSON hopen hbuilt hp htarget hshows ho hknown depth
        obtain ⟨ss', w₄, hss', hreads, honly'⟩ := mapM_readBack_eq_ok
          (fun s v lists hcopies w₂ hobjects hbuilt x hx => ih hcopies hobjects hbuilt hx) hitems
          (honly.objects.trans hobjects) (honly.descriptors hbuilt) hxs
        have hmade : w₄.OnlyReads eng.config (Outcome.world (Run.newScriptArray ss' w₄)) :=
          Run.onlyReads_newScriptArray ss' w₄
        have hlevelItems : Run.itemsOf (.array a) w₃ = .ok xs w₃ := by
          rw [Run.itemsOf, Run.get_bind, ha]
          rfl
        have hrun : eng.readBack (depth + 1) w (n + 1) (.array r) (.proxy p) w₂ =
            Run.newScriptArray ss' w₄ :=
          (Run.bind_of_ok hlevel).trans ((Run.bind_of_ok hlevelItems).trans (Run.bind_of_ok hss'))
        refine ⟨.array w₄.arrays.next, _, hrun, ?_,
          IsTrans.trans _ _ _ (IsTrans.trans _ _ _ honly honly') hmade⟩
        obtain ⟨hlength, hpairs⟩ := List.forall₂_iff_zip.1 hreads
        exact .array (Store.get?_alloc_next _ _) hlength fun s s' hmem => (hpairs hmem).later hmade
    · exact readBack_leaf_eq_ok hw (not_exists.1 hs) _ hcopies hx

/-- A copy is carried to the script and read back there, whatever else there is besides its
lists. -/
theorem exists_readBack_of_copies (hopen : eng.Open) (hw : w.AnswersForHosts)
    (hkeeps : w.KeepsObjects w₁) (hcopies : w.Copies w₁ n s v lists)
    (hbuilt : Descriptor.AreBuilt eng.config w₁.descriptors) (depth : Nat) :
    ∃ x w₂ s' w₃, eng.toScript v w₁ = .ok x w₂ ∧
      eng.readBack (depth + 1) w n s x w₂ = .ok s' w₃ ∧ w.ReadsAs w₃ s s' ∧
      w₁.OnlyReads eng.config w₃ := by
  obtain ⟨x, w₂, hx, hpresents, honly⟩ :=
    Engine.toScript_presents hopen (hcopies.knows hw.knowsTargets hkeeps) hbuilt
  obtain ⟨s', w₃, hs', hreads, honly'⟩ := readBack_eq_ok hopen hw hkeeps depth hcopies
    honly.objects (honly.descriptors hbuilt) hpresents
  exact ⟨x, w₂, s', w₃, hx, hs', hreads, IsTrans.trans w₁ w₂ w₃ honly honly'⟩

end Levels

/-! ### There and back -/

/-- Script arrays are carried to the host as deep copies, and both sides go their own ways. Every
script value whose arrays do not contain themselves is carried there, by an engine that lets all
values cross. What comes of it is a copy, made of new lists, of which no two are the same and none
was there before. However the arrays of the script and all else has changed since, as long as the
lists of the copy have not, the copy read back level by level is the value as it was when it was
copied, with null for `undefined`, primitives for proxies of them and new proxies for the proxies of
objects. And whatever is done to the lists, and to all else of the host, no script array has other
items than before. -/
theorem arrays_cross_as_copies (eng : Engine) (hopen : eng.Open) {w : World}
    (hhandlers : w.AnswersForHosts) {s : Script.Value} (hs : s.Unfolds w) :
    ∃ v w₁ lists, eng.toHost s w = .ok v w₁ ∧ w.AddsObjects w₁ ∧
      w.Copies w₁ (w.arrays.size + 1) s v lists ∧
      lists.Nodup ∧ (∀ o ∈ lists, w.objects.get? o = none) ∧
      (∀ w₂ : World, w₁.KeepsThese lists w₂ → w₁.KeepsObjects w₂ →
        Descriptor.AreBuilt eng.config w₂.descriptors → ∀ depth,
        ∃ x w₃ s' w₄, eng.toScript v w₂ = .ok x w₃ ∧
          eng.readBack (depth + 1) w (w.arrays.size + 1) s x w₃ = .ok s' w₄ ∧
          w.ReadsAs w₄ s s' ∧ w₂.OnlyReads eng.config w₄) ∧
      (eng.SparesArrays → ∀ (events : List Event) (w₂ : World),
        w₂.KeepsArrays (Event.runAll eng events w₂)) := by
  obtain ⟨v, w₁, lists, hv, hcopies, hmakes⟩ := hopen.toHost_copies hs
  have hadds : w.AddsObjects w₁ := (eng.within_toHost s).rel_of_ok hv
  refine ⟨v, w₁, lists, hv, hadds, hcopies, hmakes.nodup, fun o => hmakes.get?_eq_none,
    fun w₂ hlists hobjects hbuilt depth => ?_, fun hspares => Event.keepsArrays_runAll hspares⟩
  have hkeeps : w.KeepsObjects w₂ := fun u hu => hobjects u (hadds.knows hu)
  exact exists_readBack_of_copies hopen hhandlers hkeeps (hcopies.later hlists) hbuilt depth

/-- A world with an array in another, and a proxy of a number in that one. -/
def World.ofNested : World where
  arrays := (Store.alloc {} [.string "a", .proxy ⟨0⟩]).alloc [.undefined, .array ⟨0⟩]
  handlers := Store.alloc {}
    ⟨.integer 5, .build Config.standard (Host.Library.wrapper .integer) false, none, none⟩

theorem World.answersForHosts_ofNested : World.ofNested.AnswersForHosts := by
  intro r h hr
  obtain hold | rfl := Store.get?_or_eq_of_alloc hr
  · cases hold
  · exact ⟨_, rfl⟩

/-- No array is in the inner one. -/
theorem acc_inner_ofNested : Acc World.ofNested.IsItem ⟨0⟩ := by
  refine .intro _ fun r hr => ?_
  have hitem : Script.Value.array r ∈ [.string "a", .proxy ⟨0⟩] := hr
  simp at hitem

/-- The outer array does not contain itself. -/
theorem unfolds_ofNested : (Script.Value.array ⟨1⟩).Unfolds World.ofNested := by
  intro r hr
  cases hr
  refine .intro _ fun r hr => ?_
  have hitem : Script.Value.array r ∈ [.undefined, .array ⟨0⟩] := hr
  obtain rfl : r = ⟨0⟩ := by simpa using hitem
  exact acc_inner_ofNested

/-- An array in another is read back after all script arrays have been emptied. -/
theorem arrays_cross_as_copies_ofNested :
    let eng := Engine.direct Config.standard
    ∃ v w₁ x w₃ s' w₄, eng.toHost (.array ⟨1⟩) World.ofNested = .ok v w₁ ∧
      eng.toScript v { w₁ with arrays := ⟨w₁.arrays.cells.map fun _ => []⟩ } = .ok x w₃ ∧
      eng.readBack 1 World.ofNested 3 (.array ⟨1⟩) x w₃ = .ok s' w₄ ∧
      World.ofNested.ReadsAs w₄ (.array ⟨1⟩) s' := by
  intro eng
  obtain ⟨v, w₁, lists, hv, hadds, -, -, -, hback, -⟩ := arrays_cross_as_copies eng
    (Engine.open_direct Config.standard) World.answersForHosts_ofNested unfolds_ofNested
  have hbuilt : w₁.descriptors = [] := by rw [hadds.rest]; rfl
  obtain ⟨x, w₃, s', w₄, hx, hs', hreads, -⟩ :=
    hback { w₁ with arrays := ⟨w₁.arrays.cells.map fun _ => []⟩ } (fun _ _ _ h => h)
      (fun _ h => h) (by rw [hbuilt]; exact nofun) 0
  exact ⟨v, w₁, x, w₃, s', w₄, hv, hx, hs', hreads⟩

/-- The proxy of a number in an array comes back as the number, and not as a proxy of it. -/
theorem not_readBack_proxy_of_primitive :
    let eng := Engine.direct Config.standard
    ∃ v w₁ x w₂ a w₃, eng.toHost (.array ⟨0⟩) World.ofNested = .ok v w₁ ∧
      eng.toScript v w₁ = .ok x w₂ ∧
      eng.readBack 1 World.ofNested 3 (.array ⟨0⟩) x w₂ = .ok (.array a) w₃ ∧
      w₃.arrays.get? a = some [.string "a", .integer 5] ∧
      ∀ p, Script.Value.integer 5 ≠ .proxy p := by
  intro eng
  have hopen := Engine.open_direct Config.standard
  have hunfolds : (Script.Value.array ⟨0⟩).Unfolds World.ofNested := fun r hr => by
    cases hr
    exact acc_inner_ofNested
  obtain ⟨v, w₁, lists, hv, hcopies, -⟩ := hopen.toHost_copies hunfolds
  have hadds : World.ofNested.AddsObjects w₁ := (eng.within_toHost _).rel_of_ok hv
  have hbuilt : w₁.descriptors = [] := by rw [hadds.rest]; rfl
  obtain ⟨x, w₂, s', w₃, hx, hs', hreads, -⟩ := exists_readBack_of_copies hopen
    World.answersForHosts_ofNested (fun _ => hadds.knows) hcopies (by rw [hbuilt]; exact nofun) 0
  cases hreads with
  | itself hs => cases hs
  | @array _ a items ha hlength hitems =>
    match items, hlength with
    | [first, second], _ =>
      have hfirst := hitems (.string "a") first List.mem_cons_self
      have hsecond := hitems (.proxy ⟨0⟩) second (List.mem_cons_of_mem _ List.mem_cons_self)
      cases hfirst
      cases hsecond with
      | itself hs => cases hs
      | proxy htarget => cases htarget
      | primitive htarget =>
        cases htarget
        exact ⟨v, w₁, x, w₂, a, w₃, hv, hx, hs', ha, nofun⟩

end Membrane
