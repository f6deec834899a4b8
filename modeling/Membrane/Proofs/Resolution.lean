import Membrane.Proofs.Dictionary
import Membrane.Proofs.Quiet
import Membrane.Proofs.Storage
import Membrane.Proxy.Handler

/-!
# What is read and what is there

Reading a property asks one resolver after the other, and each answers just if the target offers the
property in its own way: as an element of a collection, a field, a method, a conversion, an accessor
or a prototype function. Asking whether a property is there asks fewer. So what is read is there,
but for symbols, which have no name to be looked up, and the length of an array. What is there is
read, but for methods that were told to give way and have nothing to give way to.

## Main definitions

* `Run.AnswersIff`: when a resolver answers.
* `World.ShowsElement`, `World.Offers`: the ways in which a target offers a property.
* `World.contains`, `World.hasIndex`: what a collection holds.

## Main results

* `Engine.answersIff_resolve`: reading a property is answered just if the target offers it.
* `Engine.hasProperty_eq_ok`: what is said of a property.
* `hasProperty_of_answered`: what is read is there.
* `resolve_of_claimed`: what is there is read.
-/

namespace Membrane

open Host (Value)

/-! ### Resolvers -/

namespace Run

variable {α β : Type} {x : Run (Option α)} {rest : List (Run (Option α))} {w : World} {P Q : Prop}

/-- Asked in a world, a resolver answers just if a condition holds. The answer may be a fault. A
resolver without an answer leaves the world as it is. -/
structure AnswersIff (x : Run (Option α)) (w : World) (P : Prop) : Prop where
  /-- Where the condition holds there is an answer. -/
  answers : P → ∀ w', x w ≠ .ok none w'
  /-- Where it does not hold there is none. -/
  passes : ¬P → x w = .ok none w

namespace AnswersIff

theorem congr (h : x.AnswersIff w P) (hPQ : P ↔ Q) : x.AnswersIff w Q :=
  ⟨fun hQ => h.answers (hPQ.2 hQ), fun hQ => h.passes (mt hPQ.1 hQ)⟩

/-- A resolver is passed by just if its condition does not hold. -/
theorem eq_none_iff (h : x.AnswersIff w P) : (∃ w', x w = .ok none w') ↔ ¬P :=
  ⟨fun ⟨w', hw⟩ hP => h.answers hP w' hw, fun hP => ⟨w, h.passes hP⟩⟩

theorem of_answered (h : x.AnswersIff w P) (hx : ∀ w', x w ≠ .ok none w') : P := by
  by_contra hP
  exact hx w (h.passes hP)

theorem none (hP : ¬P) : (Pure.pure none : Run (Option α)).AnswersIff w P :=
  ⟨fun hP' => absurd hP' hP, fun _ => rfl⟩

/-- A resolver that gives what another computation gives always answers. -/
theorem some (hP : P) (y : Run α) :
    (y >>= fun a => Pure.pure (Option.some a) : Run (Option α)).AnswersIff w P := by
  refine ⟨fun _ w' hw => ?_, fun hP' => absurd hP hP'⟩
  obtain ⟨a, w₁, -, hpure⟩ := bind_eq_ok hw
  cases hpure

theorem get_bind {f : World → Run (Option α)} (h : (f w).AnswersIff w P) :
    (MonadState.get >>= f).AnswersIff w P :=
  ⟨h.answers, h.passes⟩

theorem answerWith (f : β → Run α) (o : Option β) :
    (Run.answerWith f o).AnswersIff w o.isSome := by
  cases o with
  | none => exact none Bool.false_ne_true
  | some b => exact some rfl (f b)

theorem firstAnswer_nil : (firstAnswer ([] : List (Run (Option α)))).AnswersIff w False :=
  none not_false

/-- Of several resolvers the first is asked, and the others if it passes. -/
theorem firstAnswer_cons (hx : x.AnswersIff w P) (hrest : (firstAnswer rest).AnswersIff w Q) :
    (firstAnswer (x :: rest)).AnswersIff w (P ∨ Q) := by
  have hpassed (hP : ¬P) : firstAnswer (x :: rest) w = firstAnswer rest w :=
    bind_of_ok (hx.passes hP)
  constructor
  · intro hPQ w' hw
    by_cases hP : P
    · obtain ⟨o, w₁, ho, hgo⟩ := bind_eq_ok hw
      cases o with
      | none => exact hx.answers hP w₁ ho
      | some a => cases hgo
    · rw [hpassed hP] at hw
      exact hrest.answers (hPQ.resolve_left hP) w' hw
  · intro hPQ
    rw [not_or] at hPQ
    rw [hpassed hPQ.1]
    exact hrest.passes hPQ.2

end AnswersIff

/-- The first resolver that has an answer gives it. -/
theorem firstAnswer_of_some {a : α} {w₁ : World} (hx : x w = .ok (some a) w₁) :
    firstAnswer (x :: rest) w = .ok (some a) w₁ :=
  bind_of_ok hx

/-- Where the first resolver passes, the others are asked. -/
theorem firstAnswer_of_none (hx : x w = .ok none w) :
    firstAnswer (x :: rest) w = firstAnswer rest w :=
  bind_of_ok hx

/-- An answer was given by one of the resolvers. -/
theorem exists_of_firstAnswer_eq_ok {a : α} {w' : World} :
    {resolvers : List (Run (Option α))} → {w : World} →
    firstAnswer resolvers w = .ok (some a) w' → ∃ x ∈ resolvers, ∃ w₁, x w₁ = .ok (some a) w'
  | x :: rest, w, hanswer => by
    obtain ⟨o, w₁, hx, hrest⟩ := bind_eq_ok hanswer
    cases o with
    | some b =>
      cases hrest
      exact ⟨x, List.mem_cons_self, w, hx⟩
    | none =>
      obtain ⟨y, hy, hgave⟩ := exists_of_firstAnswer_eq_ok hrest
      exact ⟨y, List.mem_cons_of_mem x hy, hgave⟩

/-- What is carried on is carried on from something. -/
theorem exists_of_answerWith_eq_ok {f : α → Run β} {o : Option α} {b : β} {w' : World}
    (hanswer : answerWith f o w = .ok (some b) w') : ∃ a, o = some a ∧ f a w = .ok b w' := by
  cases o with
  | none => cases hanswer
  | some a =>
    obtain ⟨b', w₁, hf, hb⟩ := bind_eq_ok hanswer
    cases hb
    exact ⟨a, rfl, hf⟩

/-- Where the first resolver gives what another computation gives, the others are not asked. -/
theorem firstAnswer_of_answer {y : Run α} (hx : x w = (y >>= fun a => pure (some a)) w) :
    firstAnswer (x :: rest) w = (y >>= fun a => pure (some a)) w := by
  cases hy : y w with
  | ok a w₁ =>
    rw [bind_of_ok hy] at hx ⊢
    exact firstAnswer_of_some hx
  | error e w₁ =>
    rw [bind_of_error hy] at hx ⊢
    exact bind_of_error hx

end Run

/-! ### Reading -/

/-- A collection shows an element under a name: an item of a list or an array by its index, an entry
of a map by its key, and the length of an array. -/
def World.ShowsElement (w : World) (target : Value) (name : String) : Prop :=
  (w.element? target name).isSome ∨ name = "length" ∧ (w.array? target).isSome

/-- The ways in which the target of a handler offers a property. -/
inductive World.Offers (w : World) (h : Handler) (property : Script.Value) : Prop
  /-- An element of a collection. -/
  | element {name : String} (hname : property.propertyName? = some name)
      (hshows : w.ShowsElement h.target name)
  /-- An exposed field. -/
  | field {name : String} (hname : property.propertyName? = some name)
      (hfield : (h.descriptor.field? name).isSome)
  /-- Exposed methods that do not give way. -/
  | method {name : String} (hname : property.propertyName? = some name)
      (hstays : h.descriptor.isOverride name = false)
      (hmethod : (h.descriptor.method? name).isSome)
  /-- The conversion to a primitive. -/
  | conversion {s : Script.Symbol} (hsymbol : property = .symbol s) (hs : s == .toPrimitive)
  /-- The iterator of a collection. -/
  | iterator {s : Script.Symbol} (hsymbol : property = .symbol s) (hs : s == .iterator)
      (hiterable : w.isIterable h.target)
  /-- An accessor method. -/
  | getter {name : String} (hname : property.propertyName? = some name)
      (hgetter : (h.descriptor.getter? name).isSome)
  /-- A prototype function. -/
  | prototype {name : String} (hname : property.propertyName? = some name)
      (hprototype : (h.prototype? name).isSome)

namespace Engine

variable (eng : Engine) (h : Handler) (property : Script.Value) (w : World)

/-- A resolver that looks something up under the name of the property. -/
theorem answersIff_named {α β : Type} (f : α → Run β) (find? : String → Option α) :
    (Run.answerWith f (property.propertyName?.bind find?)).AnswersIff w
      (∃ name, property.propertyName? = some name ∧ (find? name).isSome) :=
  (Run.AnswersIff.answerWith f _).congr (by cases property.propertyName? <;> simp)

theorem answersIff_getElement : (eng.getElement h property).AnswersIff w
    (∃ name, property.propertyName? = some name ∧ w.ShowsElement h.target name) := by
  refine .get_bind ?_
  cases hname : property.propertyName? with
  | none => exact .none (by simp)
  | some name =>
    cases harray : w.array? h.target with
    | none => exact (Run.AnswersIff.answerWith _ _).congr (by simp [World.ShowsElement, harray])
    | some items =>
      by_cases hlength : name = "length"
      · simp only [hlength, if_true]
        exact .some ⟨"length", rfl, .inr ⟨rfl, by rw [harray]; rfl⟩⟩ (pure _)
      · simp only [hlength, if_false]
        exact (Run.AnswersIff.answerWith _ _).congr (by simp [World.ShowsElement, hlength])

theorem answersIff_getField : (eng.getField h property).AnswersIff w
    (∃ name, property.propertyName? = some name ∧ (h.descriptor.field? name).isSome) :=
  .get_bind (answersIff_named property w _ _)

theorem answersIff_getMethod : (getMethod h property).AnswersIff w
    (∃ name, property.propertyName? = some name ∧ h.descriptor.isOverride name = false ∧
      (h.descriptor.method? name).isSome) := by
  refine (Run.AnswersIff.answerWith _ _).congr ?_
  cases property.propertyName? with
  | none => simp
  | some name => cases hover : h.descriptor.isOverride name <;> simp [Option.filter, hover]

theorem answersIff_getSymbol : (getSymbol h property).AnswersIff w
    (∃ s, property = .symbol s ∧ (s == .toPrimitive ∨ s == .iterator ∧ w.isIterable h.target)) := by
  unfold getSymbol
  split
  case h_1 s =>
    refine .get_bind ?_
    split
    · next hs => exact .some ⟨s, rfl, .inl hs⟩ _
    · next hs =>
      split
      · next hs' => exact .some ⟨s, rfl, .inr (by simpa using hs')⟩ _
      · next hs' => exact .none (by simp_all)
  case h_2 hnot => exact .none fun ⟨s, hs, _⟩ => hnot s hs

/-- Reading a property is answered just if the target offers it. -/
theorem answersIff_resolve : (eng.resolve h property).AnswersIff w (w.Offers h property) := by
  have hprototype := (answersIff_named property w (fun f => f.read h.target)
    h.prototype?).firstAnswer_cons .firstAnswer_nil
  have hgetter := (answersIff_named property w
    (fun m => do eng.toScript (← eng.callMethod m h.target []))
    h.descriptor.getter?).firstAnswer_cons hprototype
  have hsymbol := (answersIff_getSymbol h property w).firstAnswer_cons hgetter
  have hmethod := (answersIff_getMethod h property w).firstAnswer_cons hsymbol
  have hfield := (eng.answersIff_getField h property w).firstAnswer_cons hmethod
  refine ((eng.answersIff_getElement h property w).firstAnswer_cons hfield).congr ⟨?_, ?_⟩
  · rintro (⟨_, hname, h⟩ | ⟨_, hname, h⟩ | ⟨_, hname, hstays, h⟩ | ⟨_, hs, h | ⟨h, hiterable⟩⟩ |
      ⟨_, hname, h⟩ | ⟨_, hname, h⟩ | h)
    · exact .element hname h
    · exact .field hname h
    · exact .method hname hstays h
    · exact .conversion hs h
    · exact .iterator hs h hiterable
    · exact .getter hname h
    · exact .prototype hname h
    · exact h.elim
  · intro hoffers
    cases hoffers with
    | element hname h => exact .inl ⟨_, hname, h⟩
    | field hname h => exact .inr (.inl ⟨_, hname, h⟩)
    | method hname hstays h => exact .inr (.inr (.inl ⟨_, hname, hstays, h⟩))
    | conversion hs h => exact .inr (.inr (.inr (.inl ⟨_, hs, .inl h⟩)))
    | iterator hs h hiterable => exact .inr (.inr (.inr (.inl ⟨_, hs, .inr ⟨h, hiterable⟩⟩)))
    | getter hname h => exact .inr (.inr (.inr (.inr (.inl ⟨_, hname, h⟩))))
    | prototype hname h => exact .inr (.inr (.inr (.inr (.inr (.inl ⟨_, hname, h⟩)))))

/-- What the resolvers give is what is read. -/
theorem getProperty_of_resolve {eng : Engine} {h : Handler} {property : Script.Value} {w : World}
    {y : Run Script.Value}
    (hy : eng.resolve h property w = (y >>= fun s => pure (some s)) w) :
    eng.getProperty h property w = y w := by
  unfold getProperty
  cases hs : y w with
  | ok s w₁ =>
    rw [Run.bind_of_ok hs] at hy
    exact Run.bind_of_ok hy
  | error e w₁ =>
    rw [Run.bind_of_error hs] at hy
    exact Run.bind_of_error hy

/-- What a resolver finds as an element is what is read. -/
theorem getProperty_of_element? {eng : Engine} {h : Handler} {name : String} {u : Value} {w : World}
    (hlength : name = "length" → w.array? h.target = none)
    (hu : w.element? h.target name = some u) :
    eng.getProperty h (.string name) w = eng.toScript u w := by
  refine getProperty_of_resolve (Run.firstAnswer_of_answer ?_)
  unfold getElement
  rw [Run.get_bind]
  simp only [Script.Value.propertyName?]
  cases harray : w.array? h.target with
  | none =>
    rw [hu]
    rfl
  | some items =>
    have hne : name ≠ "length" := fun heq => by simp [hlength heq] at harray
    simp only [hne, if_false, hu]
    rfl

/-- What no element of the name is shown for is read from the exposed field of the name. -/
theorem getProperty_of_field? {eng : Engine} {h : Handler} {name : String}
    {entry : Descriptor.FieldEntry} {w : World} (helement : ¬w.ShowsElement h.target name)
    (hfield : h.descriptor.field? name = some entry) :
    eng.getProperty h (.string name) w = eng.toScript (w.readField entry h.target) w := by
  have helement' : eng.getElement h (.string name) w = .ok none w :=
    (eng.answersIff_getElement h _ w).passes fun ⟨_, hname, hshows⟩ => by
      cases hname
      exact helement hshows
  have hread : eng.getField h (.string name) w =
      (eng.toScript (w.readField entry h.target) >>= fun s => pure (some s)) w := by
    simp only [getField, Run.get_bind, Script.Value.propertyName?, Option.bind_some, hfield]
    rfl
  refine getProperty_of_resolve ?_
  rw [resolve, Run.firstAnswer_of_none helement']
  exact Run.firstAnswer_of_answer hread

/-- What nothing else answers for is read from the prototype. -/
theorem getProperty_of_prototype? {eng : Engine} {h : Handler} {name : String}
    {f : Prototype.Function} {w : World} (helement : ¬w.ShowsElement h.target name)
    (hfield : h.descriptor.field? name = none)
    (hmethod : h.descriptor.isOverride name = true ∨ h.descriptor.method? name = none)
    (hgetter : h.descriptor.getter? name = none) (hf : h.prototype? name = some f) :
    eng.getProperty h (.string name) w = f.read h.target w := by
  have helement' : eng.getElement h (.string name) w = .ok none w :=
    (eng.answersIff_getElement h _ w).passes fun ⟨_, hname, hshows⟩ => by
      cases hname
      exact helement hshows
  have hfield' : eng.getField h (.string name) w = .ok none w :=
    (eng.answersIff_getField h _ w).passes fun ⟨_, hname, hsome⟩ => by
      cases hname
      simp [hfield] at hsome
  have hmethod' : getMethod h (.string name) w = .ok none w :=
    (answersIff_getMethod h _ w).passes fun ⟨_, hname, hstays, hsome⟩ => by
      cases hname
      obtain hover | hnone := hmethod
      · exact Bool.false_ne_true (hstays.symm.trans hover)
      · simp [hnone] at hsome
  have hsymbol : getSymbol h (.string name) w = .ok none w := rfl
  have haccessor : eng.getAccessor h (.string name) w = .ok none w :=
    (answersIff_named (.string name) w _ h.descriptor.getter?).passes fun ⟨_, hname, hsome⟩ => by
      cases hname
      simp [hgetter] at hsome
  have hread : getPrototype h (.string name) w =
      (f.read h.target >>= fun s => pure (some s)) w := by
    simp only [getPrototype, Script.Value.propertyName?, Option.bind_some, hf]
    rfl
  refine getProperty_of_resolve ?_
  rw [resolve, Run.firstAnswer_of_none helement', Run.firstAnswer_of_none hfield',
    Run.firstAnswer_of_none hmethod', Run.firstAnswer_of_none hsymbol,
    Run.firstAnswer_of_none haccessor]
  exact Run.firstAnswer_of_answer hread

end Engine

/-! ### Presence -/

/-- Whether a collection holds a value: as a key of a map, a member of a set or an item of a
list. -/
def World.contains (w : World) (target v : Value) : Bool :=
  match w.data? target with
  | some (.map entries) => entries.contains v
  | some (.set members) => Members.contains members v
  | some (.list items) => items.any (· == v)
  | _ => false

/-- Whether a list or an array has an item at an index. -/
def World.hasIndex (w : World) (target : Value) (index : Option Nat) : Bool :=
  match w.data? target with
  | some (.list items) | some (.array items) => index.any (· < items.size)
  | _ => false

namespace Engine

variable {eng : Engine} {h : Handler} {property : Script.Value} {v : Value} {w : World}

/-- A value that is not refused is carried over. -/
theorem toHost_eq_carryToHost (hcross : eng.refusesScript w property = none) :
    eng.toHost property w = property.carryToHost (w.arrays.size + 1) w := by
  unfold toHost
  rw [Run.get_bind, hcross]

theorem hasElement_eq_ok (hvalue : eng.toHost property w = .ok v w) :
    eng.hasElement h property w =
      .ok (w.contains h.target v ||
        w.hasIndex h.target (property.propertyName?.bind indexKey?)) w := by
  unfold hasElement World.contains World.hasIndex
  rw [Run.get_bind]
  cases w.data? h.target with
  | none => rfl
  | some data =>
    cases data with
    | map entries =>
      rw [Bool.or_false]
      exact Run.bind_of_ok hvalue
    | set members =>
      rw [Bool.or_false]
      exact Run.bind_of_ok hvalue
    | list items => exact Run.bind_of_ok hvalue
    | _ => rfl

/-- A property is there if the collection holds it or has an item there, or if a member or a
prototype function goes by its name. -/
theorem hasProperty_eq_ok (hvalue : eng.toHost property w = .ok v w) :
    eng.hasProperty h property w =
      .ok (w.contains h.target v || w.hasIndex h.target (property.propertyName?.bind indexKey?) ||
        h.hasMember property || h.hasPrototype property) w :=
  Run.bind_of_ok (hasElement_eq_ok hvalue)

/-- Symbols have no name. One is there if the collection holds the symbol itself. -/
theorem hasProperty_symbol {s : Script.Symbol} (hcross : eng.refusesScript w (.symbol s) = none) :
    eng.hasProperty h (.symbol s) w = .ok (w.contains h.target (.script (.symbol s))) w := by
  have hname : (Script.Value.symbol s).propertyName? = none := rfl
  have hindex : w.hasIndex h.target none = false := by
    unfold World.hasIndex
    split <;> rfl
  rw [hasProperty_eq_ok (toHost_eq_carryToHost hcross)]
  simp only [Handler.hasMember, Handler.hasPrototype, hname, Option.bind_none, hindex,
    Option.any_none, Bool.or_false]

end Engine

/-- There is an item at an index just if the index is below the number of items. -/
theorem isSome_bind_getElem? (items : Array Value) (index : Option Nat) :
    (index.bind (items[·]?)).isSome = index.any (· < items.size) := by
  cases index with
  | none => rfl
  | some i => exact Bool.eq_iff_iff.2 (by simp)

/-- An element that is shown under a name is held under it, the length of an array apart. -/
theorem World.holds_of_showsElement {w : World} {target : Value} {name : String}
    (hlength : name = "length" → w.array? target = none) (hshows : w.ShowsElement target name) :
    w.contains target (.string name) || w.hasIndex target (indexKey? name) := by
  obtain helement | ⟨hname, harray⟩ := hshows
  · unfold World.element? at helement
    unfold World.contains World.hasIndex
    cases hdata : w.data? target with
    | none => simp [hdata] at helement
    | some data =>
      rw [hdata] at helement
      cases data with
      | map entries =>
        change entries.contains (.string name) || false
        rw [Dictionary.contains_eq_isSome_get?, helement, Bool.true_or]
      | list items =>
        change items.any (· == .string name) || (indexKey? name).any (· < items.size)
        rw [← isSome_bind_getElem?, helement, Bool.or_true]
      | array items =>
        change (indexKey? name).any (· < items.size)
        rw [← isSome_bind_getElem?, helement]
      | _ => cases helement
  · rw [hlength hname] at harray
    cases harray

/-! ### What is read is there -/

/-- What is offered under a name, the length of an array apart, is held by the collection, or is a
member or a prototype function. -/
theorem World.there_of_offers {w : World} {h : Handler} {name : String}
    (hlength : name = "length" → w.array? h.target = none) (hoffers : w.Offers h (.string name)) :
    w.contains h.target (.string name) || w.hasIndex h.target (indexKey? name) ||
      h.hasMember (.string name) || h.hasPrototype (.string name) := by
  cases hoffers with
  | element hname hshows =>
    cases hname
    simp [World.holds_of_showsElement hlength hshows]
  | field hname hfield =>
    cases hname
    simp [Handler.hasMember, Script.Value.propertyName?, hfield]
  | method hname hstays hmethod =>
    cases hname
    simp [Handler.hasMember, Script.Value.propertyName?, hmethod]
  | getter hname hgetter =>
    cases hname
    simp [Handler.hasMember, Script.Value.propertyName?, hgetter]
  | prototype hname hprototype =>
    cases hname
    simp [Handler.hasPrototype, Script.Value.propertyName?, hprototype]
  | conversion hsymbol => cases hsymbol
  | iterator hsymbol => cases hsymbol

/-- What is read is there: a property with a name that some resolver answers, be it with a fault, is
said to be there, but for the length of an array. Symbols have no name. One is said to be there just
if the collection holds the symbol itself. -/
theorem hasProperty_of_answered (eng : Engine) (h : Handler) (w : World) :
    (∀ name : String, eng.refusesScript w (.string name) = none →
      (name = "length" → w.array? h.target = none) →
      (∀ w', eng.resolve h (.string name) w ≠ .ok none w') →
      eng.hasProperty h (.string name) w = .ok true w) ∧
    ∀ s : Script.Symbol, eng.refusesScript w (.symbol s) = none →
      eng.hasProperty h (.symbol s) w = .ok (w.contains h.target (.script (.symbol s))) w := by
  refine ⟨fun name hcross hlength hanswered => ?_, fun s => Engine.hasProperty_symbol⟩
  have hoffers := (eng.answersIff_resolve h (.string name) w).of_answered hanswered
  rw [Engine.hasProperty_eq_ok (Engine.toHost_eq_carryToHost hcross)]
  exact congrArg (EStateM.Result.ok · w) (World.there_of_offers hlength hoffers)

/-- The handler of a reference to the class of lists. -/
def listClassHandler : Handler :=
  ⟨.object ⟨0⟩, .build Config.standard Host.Library.list true, none, none⟩

/-- The world with a reference to the class of lists and nothing else. -/
def World.ofListClass : World :=
  { objects := ({} : Store .object Host.Object).alloc
      (.new Host.Library.classes (.classRef Host.Library.list)) }

/-- A class reference has the name that an accessor reads. -/
theorem hasProperty_of_answered_getter :
    (∃ w', (Engine.direct Config.standard).resolve listClassHandler (.string "name")
      World.ofListClass = .ok (some (.string "List")) w') ∧
    (Engine.direct Config.standard).hasProperty listClassHandler (.string "name")
      World.ofListClass = .ok true World.ofListClass := by
  have hanswer : (Engine.direct Config.standard).resolve listClassHandler (.string "name")
      World.ofListClass = .ok (some (.string "List")) World.ofListClass := by rfl
  have hthere := (hasProperty_of_answered (Engine.direct Config.standard) listClassHandler
    World.ofListClass).1 "name" rfl nofun fun w' hnone => by
      rw [hanswer] at hnone
      cases hnone
  exact ⟨⟨_, hanswer⟩, hthere⟩

/-- The handler of the list of a world with one list. -/
def onlyListHandler (config : Config) : Handler :=
  ⟨onlyList, .build config Host.Library.list false, none, none⟩

/-- What is read need not be there: a list gives its iterator and does not own up to it. -/
theorem not_hasProperty_of_answered :
    ¬ ∀ (h : Handler) (property : Script.Value) (w : World),
      (∀ w', (Engine.direct Config.standard).resolve h property w ≠ .ok none w') →
      (Engine.direct Config.standard).hasProperty h property w = .ok true w := by
  intro hall
  have hfalse : (Engine.direct Config.standard).hasProperty (onlyListHandler .standard)
      (.symbol .iterator) (World.ofItems []) = .ok false (World.ofItems []) := by
    have hdata : (World.ofItems []).data? onlyList = some (.list #[]) := rfl
    exact (Engine.hasProperty_symbol rfl).trans (by simp [World.contains, onlyListHandler, hdata])
  have hanswered (w' : World) : (Engine.direct Config.standard).resolve
      (onlyListHandler .standard) (.symbol .iterator) (World.ofItems []) ≠ .ok none w' := nofun
  have htrue := hall (onlyListHandler .standard) (.symbol .iterator) (World.ofItems []) hanswered
  rw [hfalse] at htrue
  cases htrue

/-! ### What is there is read -/

/-- Adding a name to a set adds no other. -/
theorem Names.eq_or_mem_of_mem_insert {a b : String} {names : List String}
    (h : a ∈ Names.insert b names) : a = b ∨ a ∈ names := by
  induction names with
  | nil => exact .inl (List.mem_singleton.1 h)
  | cons n names ih =>
    unfold Names.insert at h
    split at h
    · exact List.mem_cons.1 h
    · split at h
      · exact .inr h
      · obtain rfl | h := List.mem_cons.1 h
        · exact .inr List.mem_cons_self
        · exact (ih h).imp_right (List.mem_cons_of_mem n)

theorem Names.mem_or_mem_of_mem_foldl_insert {a : String} {names s : List String}
    (h : a ∈ names.foldl (fun s n => Names.insert n s) s) : a ∈ names ∨ a ∈ s := by
  induction names generalizing s with
  | nil => exact .inr h
  | cons n names ih =>
    obtain h | h := ih h
    · exact .inl (List.mem_cons_of_mem n h)
    · obtain rfl | h := Names.eq_or_mem_of_mem_insert h
      · exact .inl List.mem_cons_self
      · exact .inr h

/-- The members of a set of names are the names it was made of. -/
theorem Names.mem_of_mem_ofList {a : String} {names : List String} (h : a ∈ Names.ofList names) :
    a ∈ names :=
  (Names.mem_or_mem_of_mem_foldl_insert h).resolve_right List.not_mem_nil

/-- In the settings under which all names of prototype functions are claimed, a method gives way
only to the prototype function of its name. Where host methods win, none gives way. -/
theorem isSome_find?_of_mem_overridesFor {config : Config}
    (hconfig : config = .standard ∨ config = .hostFirst) {shape : Host.Shape} {name : String}
    (hname : name ∈ config.overridesFor shape) (p : Option Host.Primitive) :
    (Prototype.find? shape p name).isSome := by
  obtain rfl | rfl := hconfig
  · cases shape with
    | list =>
      obtain ⟨f, hf, rfl⟩ := List.mem_map.1 (Names.mem_of_mem_ofList hname)
      exact Option.isSome_map.trans (List.find?_isSome.2 ⟨f, hf, beq_self_eq_true _⟩)
    | set =>
      obtain ⟨f, hf, rfl⟩ := List.mem_map.1 (Names.mem_of_mem_ofList hname)
      exact Option.isSome_map.trans (List.find?_isSome.2 ⟨f, hf, beq_self_eq_true _⟩)
    | _ => cases hname
  · cases shape <;> cases hname

/-- A property that is there as a member or a prototype function is not read just if it is a method
that gives way, and there is no element, field, accessor or prototype function for it. -/
theorem not_offers_iff_of_claimed {w : World} {h : Handler} {name : String}
    (hclaimed : h.hasMember (.string name) || h.hasPrototype (.string name)) :
    ¬w.Offers h (.string name) ↔
      h.descriptor.isOverride name ∧ ¬w.ShowsElement h.target name ∧
        h.descriptor.field? name = none ∧ h.descriptor.getter? name = none ∧
        h.prototype? name = none := by
  have hname : (Script.Value.string name).propertyName? = some name := rfl
  constructor
  · intro hoffers
    have hfield : h.descriptor.field? name = none :=
      Option.not_isSome_iff_eq_none.1 fun hsome => hoffers (.field hname hsome)
    have hgetter : h.descriptor.getter? name = none :=
      Option.not_isSome_iff_eq_none.1 fun hsome => hoffers (.getter hname hsome)
    have hprototype : h.prototype? name = none :=
      Option.not_isSome_iff_eq_none.1 fun hsome => hoffers (.prototype hname hsome)
    have hmethod : (h.descriptor.method? name).isSome := by
      simpa [Handler.hasMember, Handler.hasPrototype, hname, hfield, hgetter, hprototype]
        using hclaimed
    refine ⟨?_, fun hshows => hoffers (.element hname hshows), hfield, hgetter, hprototype⟩
    by_contra hstays
    exact hoffers (.method hname (Bool.eq_false_iff.2 hstays) hmethod)
  · rintro ⟨hover, hshows, hfield, hgetter, hprototype⟩ hoffers
    cases hoffers with
    | element hname h =>
      cases hname
      exact hshows h
    | field hname h =>
      cases hname
      simp [hfield] at h
    | method hname h =>
      cases hname
      simp [hover] at h
    | getter hname h =>
      cases hname
      simp [hgetter] at h
    | prototype hname h =>
      cases hname
      simp [hprototype] at h
    | conversion hsymbol => cases hsymbol
    | iterator hsymbol => cases hsymbol

/-- A property that is there as a field, a method, an accessor or a prototype function is read: some
resolver answers, be it with a fault. The exceptions are the methods that were told to give way to a
prototype function and have none to give way to, where no element, field or accessor goes by their
name. So there are none as long as only names of prototype functions are claimed, as in the settings
in effect unless others are given and in those under which host methods win. -/
theorem resolve_of_claimed (eng : Engine) (h : Handler) (w : World) {name : String}
    (hclaimed : h.hasMember (.string name) || h.hasPrototype (.string name)) :
    ((∃ w', eng.resolve h (.string name) w = .ok none w') ↔
      h.descriptor.isOverride name ∧ ¬w.ShowsElement h.target name ∧
        h.descriptor.field? name = none ∧ h.descriptor.getter? name = none ∧
        h.prototype? name = none) ∧
    ∀ (config : Config) (c : Host.Class) (isStatic : Bool),
      config = .standard ∨ config = .hostFirst → h.descriptor = .build config c isStatic →
      ∀ w', eng.resolve h (.string name) w ≠ .ok none w' := by
  have hiff := ((eng.answersIff_resolve h (.string name) w).eq_none_iff).trans
    (not_offers_iff_of_claimed hclaimed)
  refine ⟨hiff, fun config c isStatic hconfig hd w' hnone => ?_⟩
  obtain ⟨hover, -, -, -, hprototype⟩ := hiff.1 ⟨w', hnone⟩
  have hmem : name ∈ config.overridesFor h.descriptor.shape := by
    rw [hd] at hover ⊢
    exact List.contains_iff_mem.1 hover
  have hsome := isSome_find?_of_mem_overridesFor hconfig hmem h.descriptor.primitive
  change (h.prototype? name).isSome at hsome
  rw [hprototype] at hsome
  cases hsome

/-- The settings under which the method `isEmpty` of lists gives way. -/
def withoutIsEmpty : Config := { Config.standard with listOverrides := ["isEmpty"] }

/-- A method that gives way to nothing is passed by, and the others are read. -/
theorem resolve_of_claimed_overrides :
    (∃ w', (Engine.direct withoutIsEmpty).resolve (onlyListHandler withoutIsEmpty)
      (.string "isEmpty") (World.ofItems []) = .ok none w') ∧
    ∀ w', (Engine.direct Config.standard).resolve (onlyListHandler .standard)
      (.string "isEmpty") (World.ofItems []) ≠ .ok none w' := by
  have hshows (config : Config) :
      ¬(World.ofItems []).ShowsElement (onlyListHandler config).target "isEmpty" := by
    rintro (helement | ⟨hname, -⟩)
    · cases helement
    · exact absurd hname (by decide)
  constructor
  · exact (resolve_of_claimed _ (onlyListHandler withoutIsEmpty) _ rfl).1.2
      ⟨rfl, hshows _, rfl, rfl, rfl⟩
  · exact (resolve_of_claimed _ (onlyListHandler .standard) _ rfl).2 .standard Host.Library.list
      false (.inl rfl) rfl

/-- What is there need not be read: a method that gives way to nothing is there all the same. -/
theorem not_resolve_of_claimed :
    ¬ ∀ (config : Config) (c : Host.Class) (isStatic : Bool) (h : Handler) (name : String)
        (w : World), h.descriptor = .build config c isStatic →
      (h.hasMember (.string name) || h.hasPrototype (.string name)) = true →
      ∀ w', (Engine.direct config).resolve h (.string name) w ≠ .ok none w' := by
  intro hall
  have hthere : ((onlyListHandler withoutIsEmpty).hasMember (.string "isEmpty") ||
      (onlyListHandler withoutIsEmpty).hasPrototype (.string "isEmpty")) = true := rfl
  exact hall withoutIsEmpty Host.Library.list false (onlyListHandler withoutIsEmpty) "isEmpty"
    (World.ofItems []) rfl hthere _ rfl

end Membrane
