import Membrane.Proofs.Describing
import Membrane.Proofs.SharedStatics
import Mathlib.Data.Finset.Card
import Mathlib.Data.List.Induction

/-!
# The cache of descriptors

A descriptor is asked for by a class and a mode, or by a value that has one of these. It is built
when the two are asked for the first time and found from then on. So the cache holds an entry for
each class and mode that were asked for, in the order of the first requests, and an entry is what
would be built now: nothing that can change goes into a descriptor, and neither the names of classes
nor anything else but the class itself and the mode tells entries apart.

## Main definitions

* `DescriptorRequest`: what a descriptor is asked for by.
* `CacheEvent`, `CacheEvent.afterAll`, `CacheEvent.askedAll`: what happens to a cache, and the
  classes and modes that are asked for.
* `World.CachesAll`: that a cache holds what was asked for, and nothing else.

## Main results

* `World.CachesAll.describe`, `World.CachesAll.afterAll`: one request, and all that can happen.
* `descriptors_built_once`: what requests are answered with, and how many descriptors there are.
-/

namespace Membrane

open Host (Value)

/-! ### Values in the order of their first occurrence -/

namespace Members

variable {α : Type} [BEq α] [LawfulBEq α] {values : List α} {a : α}

theorem contains_iff_mem {s : List α} : contains s a = true ↔ a ∈ s := by
  simp [contains]

/-- A value that was there before adds nothing. -/
theorem ofList_concat_of_mem (h : a ∈ values) : ofList (values ++ [a]) = ofList values := by
  have hinsert : ofList (values ++ [a]) = insert (ofList values) a := by
    simp [ofList, List.foldl_append]
  rw [hinsert, insert_eq, if_pos (contains_iff_mem.2 (mem_ofList.2 h))]

/-- A new value goes to the end. -/
theorem ofList_concat_of_notMem (h : a ∉ values) :
    ofList (values ++ [a]) = ofList values ++ [a] := by
  have hinsert : ofList (values ++ [a]) = insert (ofList values) a := by
    simp [ofList, List.foldl_append]
  rw [hinsert, insert_eq, if_neg fun hc => h (mem_ofList.1 (contains_iff_mem.1 hc))]

/-- What comes later changes nothing about the places of earlier values. -/
theorem ofList_prefix_append (values more : List α) :
    ofList values <+: ofList (values ++ more) := by
  induction more using List.reverseRecOn with
  | nil => simp
  | append_singleton more a ih =>
    rw [← List.append_assoc]
    by_cases h : a ∈ values ++ more
    · rwa [ofList_concat_of_mem h]
    · rw [ofList_concat_of_notMem h]
      exact ih.trans (List.prefix_append _ _)

theorem length_ofList [DecidableEq α] (values : List α) :
    (ofList values).length = values.toFinset.card := by
  have hnodup : (ofList values).Nodup := (distinct_ofList values).nodup
  rw [← List.toFinset_card_of_nodup hnodup]
  congr 1
  ext a
  simp [mem_ofList]

end Members

/-! ### What is asked for -/

/-- What a descriptor is asked for by. -/
inductive DescriptorRequest where
  /-- By a class and the mode. -/
  | ofClass (c : Host.Class) (isStatic : Bool)
  /-- By a value that is to be described. -/
  | ofTarget (target : Value)

namespace DescriptorRequest

/-- The class and the mode a request is for, if it is for any. -/
def key? (w : World) : DescriptorRequest → Option (Host.Class × Bool)
  | ofClass c isStatic => some (c, isStatic)
  | ofTarget target => w.described? target

/-- A request is made. -/
def run (eng : Engine) : DescriptorRequest → Run Descriptor
  | ofClass c isStatic => eng.describe c isStatic
  | ofTarget target => eng.descriptorOf target

end DescriptorRequest

/-- What happens to a cache. -/
inductive CacheEvent where
  /-- A descriptor is asked for. -/
  | ask (q : DescriptorRequest)
  /-- A handler is made, which asks for the descriptor of its target. -/
  | make (target : Value)
  /-- Anything happens that has nothing to do with the cache: objects and static fields change,
  and others are made. -/
  | meanwhile (change : World → World) (keeps : ∀ w, (change w).descriptors = w.descriptors)

namespace CacheEvent

variable (eng : Engine)

/-- The world after an event, whether it failed or not. -/
def after (w : World) : CacheEvent → World
  | ask q => Outcome.world (q.run eng w)
  | make target => Outcome.world (eng.newHandler target w)
  | meanwhile change _ => change w

/-- The class and the mode that an event asks for, if it asks for any. -/
def asked? (w : World) : CacheEvent → Option (Host.Class × Bool)
  | ask q => q.key? w
  | make target => w.described? target
  | meanwhile _ _ => none

/-- The world after events, one after the other. -/
def afterAll (events : List CacheEvent) (w : World) : World :=
  events.foldl (fun w e => e.after eng w) w

/-- The classes and modes that events ask for, one after the other, repeated ones included. -/
def askedAll : List CacheEvent → World → List (Host.Class × Bool)
  | [], _ => []
  | e :: events, w => (e.asked? w).toList ++ askedAll events (e.after eng w)

end CacheEvent

/-! ### What the cache holds -/

/-- The descriptors that were kept, oldest first. -/
def World.cache (w : World) : List Descriptor := w.descriptors.reverse

/-- The cache holds the descriptors of the classes and modes that were asked for, each one once and
in the order of the first requests. -/
def World.CachesAll (config : Config) (asked : List (Host.Class × Bool)) (w : World) : Prop :=
  w.cache = (Members.ofList asked).map fun key => .build config key.1 key.2

/-- At a place of the cache there is a descriptor, and nowhere else is one of the same class and
mode. -/
structure World.KeepsAt (w : World) (place : Nat) (d : Descriptor) : Prop where
  /-- It is there. -/
  entry : w.cache[place]? = some d
  /-- There is no other. -/
  only : ∀ other d', w.cache[other]? = some d' → d'.target = d.target → d'.isStatic = d.isStatic →
    other = place

section Cache

variable {eng : Engine} {config : Config} {asked : List (Host.Class × Bool)} {w : World}
  {c : Host.Class} {isStatic : Bool} {target : Value}

namespace World.CachesAll

theorem of_descriptors_eq {w' : World} (h : w.CachesAll config asked)
    (heq : w'.descriptors = w.descriptors) : w'.CachesAll config asked := by
  unfold CachesAll cache
  rwa [heq]

/-- What is asked for a second time is there already. -/
theorem of_mem (h : w.CachesAll config asked) (hmem : (c, isStatic) ∈ asked) :
    w.CachesAll config (asked ++ [(c, isStatic)]) := by
  unfold CachesAll at h ⊢
  rw [h, Members.ofList_concat_of_mem hmem]

/-- A descriptor of a class and a mode that were not asked for is built and put last. -/
theorem push (h : w.CachesAll config asked) (hnew : (c, isStatic) ∉ asked) :
    World.CachesAll config (asked ++ [(c, isStatic)])
      { w with descriptors := .build config c isStatic :: w.descriptors } := by
  unfold CachesAll cache at h ⊢
  rw [List.reverse_cons, h, Members.ofList_concat_of_notMem hnew, List.map_append]
  rfl

/-- A descriptor that was kept is that of a class and a mode that were asked for. -/
theorem exists_of_mem {d : Descriptor} (h : w.CachesAll config asked) (hd : d ∈ w.descriptors) :
    ∃ c isStatic, (c, isStatic) ∈ asked ∧ d = .build config c isStatic := by
  have hcached : d ∈ w.cache := List.mem_reverse.2 hd
  rw [h] at hcached
  obtain ⟨⟨c, isStatic⟩, hmem, rfl⟩ := List.mem_map.1 hcached
  exact ⟨c, isStatic, Members.mem_ofList.1 hmem, rfl⟩

/-- A request by class and mode is answered with what would be built. It changes nothing if the two
were asked for before, and puts a new entry last otherwise. -/
theorem describe (h : w.CachesAll eng.config asked) (c : Host.Class) (isStatic : Bool) :
    ∃ ds, eng.describe c isStatic w =
        .ok (.build eng.config c isStatic) { w with descriptors := ds } ∧
      ((c, isStatic) ∈ asked → ds = w.descriptors) ∧
      World.CachesAll eng.config (asked ++ [(c, isStatic)]) { w with descriptors := ds } := by
  unfold Engine.describe
  rw [Run.get_bind]
  cases hfound : w.descriptors.find? fun d => d.isStatic == isStatic && decide (d.target = c) with
  | some d =>
    obtain ⟨c', isStatic', hmem, rfl⟩ := h.exists_of_mem (List.mem_of_find?_eq_some hfound)
    have hmatches := List.find?_some hfound
    simp only [Bool.and_eq_true, beq_iff_eq, decide_eq_true_eq] at hmatches
    obtain ⟨rfl, rfl⟩ : isStatic' = isStatic ∧ c' = c := hmatches
    exact ⟨w.descriptors, rfl, fun _ => rfl, h.of_mem hmem⟩
  | none =>
    have hnew : (c, isStatic) ∉ asked := by
      intro hmem
      have hcached : Descriptor.build eng.config c isStatic ∈ w.cache := by
        rw [h]
        exact List.mem_map.2 ⟨(c, isStatic), Members.mem_ofList.2 hmem, rfl⟩
      have hdiffers := List.find?_eq_none.1 hfound _ (List.mem_reverse.1 hcached)
      exact hdiffers (by simp [Descriptor.build])
    exact ⟨_, rfl, fun hmem => absurd hmem hnew, h.push hnew⟩

/-- An entry stays at its place, and there is no other like it. -/
theorem keepsAt {place : Nat} (h : w.CachesAll config asked)
    (hplace : (Members.ofList asked)[place]? = some (c, isStatic)) :
    w.KeepsAt place (.build config c isStatic) where
  entry := by
    rw [h, List.getElem?_map, hplace]
    rfl
  only other d' hother htarget hmode := by
    rw [h, List.getElem?_map] at hother
    obtain ⟨key, hkey, rfl⟩ := Option.map_eq_some_iff.1 hother
    obtain rfl : key = (c, isStatic) := Prod.ext htarget hmode
    obtain ⟨hlt, -⟩ := List.getElem?_eq_some_iff.1 hkey
    have hnodup := (Members.distinct_ofList asked).nodup
    exact (List.getElem?_inj hlt hnodup).1 (hkey.trans hplace.symm)

end World.CachesAll

/-! ### Requests and other events -/

/-- A value is described by asking for the descriptor of its class in the mode that is called for,
or not at all. -/
theorem Engine.descriptorOf_eq (eng : Engine) (target : Value) (w : World) :
    eng.descriptorOf target w =
      (w.described? target).elim (.error (w.haltAbout target .indescribable) w)
        fun key => eng.describe key.1 key.2 w := by
  unfold descriptorOf World.described?
  rw [Run.get_bind]
  cases w.classRef? target with
  | some c => rfl
  | none => cases w.class? target <;> rfl

namespace DescriptorRequest

variable {q : DescriptorRequest}

theorem run_of_key? (h : q.key? w = some (c, isStatic)) :
    q.run eng w = eng.describe c isStatic w := by
  cases q with
  | ofClass c' isStatic' =>
    cases h
    rfl
  | ofTarget target =>
    have hdescribed : w.described? target = some (c, isStatic) := h
    rw [run, Engine.descriptorOf_eq, hdescribed]
    rfl

theorem run_of_key?_eq_none (h : q.key? w = none) :
    ∃ target, q = .ofTarget target ∧
      q.run eng w = .error (w.haltAbout target .indescribable) w := by
  cases q with
  | ofClass c isStatic => cases h
  | ofTarget target =>
    have hdescribed : w.described? target = none := h
    refine ⟨target, rfl, ?_⟩
    rw [run, Engine.descriptorOf_eq, hdescribed]
    rfl

end DescriptorRequest

/-- A handler that is made does to the cache what the request for its descriptor does. -/
theorem Engine.descriptors_newHandler (eng : Engine) (target : Value) (w : World) :
    (Outcome.world (eng.newHandler target w)).descriptors =
      (Outcome.world (eng.descriptorOf target w)).descriptors := by
  unfold newHandler
  cases hnull : target.isNull with
  | true =>
    -- Null has no class, so that no descriptor is asked for.
    cases target with
    | null => rfl
    | _ => cases hnull
  | false =>
    simp only [Bool.false_eq_true, if_false]
    cases hd : eng.descriptorOf target w with
    | ok d w₁ =>
      rw [Run.bind_of_ok hd]
      rfl
    | error e w₁ =>
      rw [Run.bind_of_error hd]
      rfl

namespace World.CachesAll

/-- A request leaves a cache that holds what has been asked for. -/
theorem run (h : w.CachesAll eng.config asked) (q : DescriptorRequest) :
    (Outcome.world (q.run eng w)).CachesAll eng.config (asked ++ (q.key? w).toList) := by
  cases hkey : q.key? w with
  | none =>
    obtain ⟨target, -, hrun⟩ : ∃ target, q = .ofTarget target ∧
        q.run eng w = .error (w.haltAbout target .indescribable) w :=
      DescriptorRequest.run_of_key?_eq_none hkey
    rw [hrun]
    simpa using h
  | some key =>
    obtain ⟨c, isStatic⟩ := key
    obtain ⟨ds, hdescribe, -, hcaches⟩ := h.describe c isStatic
    rw [DescriptorRequest.run_of_key? hkey, hdescribe]
    exact hcaches

/-- So does everything that can happen. -/
theorem after (h : w.CachesAll eng.config asked) (e : CacheEvent) :
    (e.after eng w).CachesAll eng.config (asked ++ (e.asked? w).toList) := by
  cases e with
  | ask q => exact h.run q
  | make target =>
    have hasked := h.run (.ofTarget target)
    exact hasked.of_descriptors_eq (eng.descriptors_newHandler target w)
  | meanwhile change keeps =>
    rw [CacheEvent.asked?, Option.toList_none, List.append_nil]
    exact h.of_descriptors_eq (keeps w)

theorem afterAll (h : w.CachesAll eng.config asked) (events : List CacheEvent) :
    (CacheEvent.afterAll eng events w).CachesAll eng.config
      (asked ++ CacheEvent.askedAll eng events w) := by
  induction events generalizing w asked with
  | nil =>
    rw [CacheEvent.askedAll, List.append_nil]
    exact h
  | cons e events ih =>
    rw [CacheEvent.askedAll, ← List.append_assoc]
    exact ih (h.after e)

/-- There are as many descriptors as different classes and modes that were asked for. -/
theorem length_descriptors (h : w.CachesAll config asked) :
    w.descriptors.length = asked.toFinset.card := by
  rw [← Members.length_ofList, ← List.length_reverse]
  exact (congrArg List.length h).trans (List.length_map _)

/-- Whatever was asked for before is found, and nothing changes. -/
theorem run_of_mem (h : w.CachesAll eng.config asked) (hmem : (c, isStatic) ∈ asked)
    {q : DescriptorRequest} (hkey : q.key? w = some (c, isStatic)) :
    q.run eng w = .ok (.build eng.config c isStatic) w := by
  obtain ⟨ds, hdescribe, hfound, -⟩ := h.describe c isStatic
  rw [DescriptorRequest.run_of_key? hkey, hdescribe, hfound hmem]

/-- An entry stays at its place whatever happens. -/
theorem keepsAt_afterAll {place : Nat} (h : w.CachesAll eng.config asked)
    (hplace : (Members.ofList asked)[place]? = some (c, isStatic)) (later : List CacheEvent) :
    (CacheEvent.afterAll eng later w).KeepsAt place (.build eng.config c isStatic) := by
  refine (h.afterAll later).keepsAt ?_
  obtain ⟨hlt, -⟩ := List.getElem?_eq_some_iff.1 hplace
  obtain ⟨rest, hrest⟩ := Members.ofList_prefix_append asked (CacheEvent.askedAll eng later w)
  rw [← hrest, List.getElem?_append_left hlt, hplace]

end World.CachesAll

/-- The cache of descriptors cannot be told from building. Start with an empty cache, in any world
and under any configuration, and let descriptors be asked for, by classes and by values, handlers be
made, and anything else happen in between. There are as many descriptors as different classes and
modes that were asked for. Whatever is asked for next, a value that is not described gets a fault
with its text, if it has one, and nothing changes; all else is answered with what would be built now
for the class and the mode. The answer is an entry of the cache, the only one of its class and mode,
which keeps its place whatever happens later. Whoever asks for the same class and mode again, in
whichever way, gets that entry, and nothing changes. -/
theorem descriptors_built_once (eng : Engine) {w : World} (hempty : w.descriptors = [])
    (history : List CacheEvent) :
    let w₁ := CacheEvent.afterAll eng history w
    let asked := CacheEvent.askedAll eng history w
    w₁.descriptors.length = asked.toFinset.card ∧
    ∀ q : DescriptorRequest,
      (q.key? w₁ = none → ∃ target, q = .ofTarget target ∧
        q.run eng w₁ = .error (w₁.haltAbout target .indescribable) w₁) ∧
      ∀ c isStatic, q.key? w₁ = some (c, isStatic) →
        let d := Descriptor.build eng.config c isStatic
        ∃ ds place, q.run eng w₁ = .ok d { w₁ with descriptors := ds } ∧
          ((c, isStatic) ∈ asked → ds = w₁.descriptors) ∧
          ((c, isStatic) ∉ asked → ds.length = w₁.descriptors.length + 1) ∧
          ∀ later, let w₂ := CacheEvent.afterAll eng later { w₁ with descriptors := ds }
            w₂.KeepsAt place d ∧
            ∀ q' : DescriptorRequest, q'.key? w₂ = some (c, isStatic) →
              q'.run eng w₂ = .ok d w₂ := by
  intro w₁ asked
  have hstart : w.CachesAll eng.config [] := by
    unfold World.CachesAll World.cache
    rw [hempty]
    rfl
  have hcaches : w₁.CachesAll eng.config asked := hstart.afterAll history
  refine ⟨hcaches.length_descriptors, fun q => ⟨DescriptorRequest.run_of_key?_eq_none, ?_⟩⟩
  intro c isStatic hkey d
  obtain ⟨ds, hdescribe, hfound, hcaches₁⟩ := hcaches.describe c isStatic
  have hmem : (c, isStatic) ∈ asked ++ [(c, isStatic)] := List.mem_append_right _ (by simp)
  obtain ⟨place, hplace⟩ := List.getElem?_of_mem (Members.mem_ofList.2 hmem)
  refine ⟨ds, place, (DescriptorRequest.run_of_key? hkey).trans hdescribe, hfound, fun hnew => ?_,
    fun later => ?_⟩
  · have hlength := hcaches₁.length_descriptors
    rw [← Members.length_ofList, Members.ofList_concat_of_notMem hnew, List.length_append,
      Members.length_ofList, ← hcaches.length_descriptors] at hlength
    exact hlength
  · exact ⟨hcaches₁.keepsAt_afterAll hplace later, fun q' hkey' =>
      (hcaches₁.afterAll later).run_of_mem (List.mem_append_left _ hmem) hkey'⟩

/-- Another class with the name of the one that has static fields. -/
def namesake : Host.Class :=
  .extending ⟨Host.Library.firstSerial + 3, withStatics.name, none, none, none, [], []⟩
    Host.Library.object

/-- The two classes are asked for by turns, one of them in both modes and again after one of its
static fields was written. -/
def namesakesByTurns : List CacheEvent :=
  [.ask (.ofClass withStatics false),
    .meanwhile (·.putStatic withStatics "x" (.integer 1)) fun _ => rfl,
    .ask (.ofTarget (.object ⟨0⟩)), .ask (.ofClass namesake false), .make (.object ⟨0⟩),
    .ask (.ofTarget .null)]

/-- Two classes of one name have three descriptors if one of them is described in both modes, and
the first of these is there to stay. -/
theorem descriptors_built_once_namesakes :
    let eng := Engine.direct Config.standard
    let w := CacheEvent.afterAll eng namesakesByTurns (World.ofReferences [withStatics])
    w.descriptors.length = 3 ∧
      eng.describe withStatics false w = .ok (.build Config.standard withStatics false) w ∧
      ∃ place, w.KeepsAt place (.build Config.standard withStatics false) := by
  intro eng
  obtain ⟨hlength, hrequests⟩ := descriptors_built_once eng
    (w := World.ofReferences [withStatics]) rfl namesakesByTurns
  have hasked : (withStatics, false) ∈
      CacheEvent.askedAll eng namesakesByTurns (World.ofReferences [withStatics]) := by
    decide +kernel
  obtain ⟨ds, place, hrun, hsame, -, hlater⟩ :=
    (hrequests (.ofClass withStatics false)).2 withStatics false rfl
  obtain rfl := hsame hasked
  have hcard : (CacheEvent.askedAll eng namesakesByTurns
      (World.ofReferences [withStatics])).toFinset.card = 3 := by
    decide +kernel
  rw [hcard] at hlength
  -- What the world is does not matter any more.
  generalize CacheEvent.afterAll eng namesakesByTurns (World.ofReferences [withStatics]) = w
    at hrun hlater hlength ⊢
  exact ⟨hlength, hrun, place, (hlater []).1⟩

end Cache

end Membrane
