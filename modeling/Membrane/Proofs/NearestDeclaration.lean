import Membrane.Proofs.Exposure

/-!
# The nearest declaration

What a class shows under a name is found by a search: through the class itself and its bases up to
the root, and in each class through its declarations in order. The first public declaration that the
search meets is what the descriptor shows. Methods are searched for once for each number of
arguments. A reference to a class shows the static members found in this way, and then the instance
members that all class references have.

## Main definitions

* `Host.Class.searchPath`: the classes searched.
* `Host.Class.declared`: the declarations in the order of the search.
* `IsFirst`: the first element of a list that has a property.
* `Descriptor.ShowsNearest`: that a descriptor shows what the searches find and nothing else.

## Main results

* `Descriptor.showsNearest_build`: descriptors show the nearest declarations.
-/

namespace Membrane

open Host (Declaration Field Method)

/-! ### The first of a list -/

section First

variable {α β : Type} {p : α → Prop} {xs : List α} {a : α}

/-- An element of a list has a property, and none of those before it has. -/
def IsFirst (p : α → Prop) (xs : List α) (a : α) : Prop :=
  ∃ before after, xs = before ++ a :: after ∧ p a ∧ ∀ b ∈ before, ¬p b

theorem isFirst_iff_find? [DecidablePred p] : IsFirst p xs a ↔ xs.find? (p ·) = some a := by
  rw [List.find?_eq_some_iff_append]
  constructor
  · rintro ⟨before, after, rfl, ha, hbefore⟩
    exact ⟨by simpa using ha, before, after, rfl, by simpa using hbefore⟩
  · rintro ⟨ha, before, after, rfl, hbefore⟩
    exact ⟨before, after, rfl, by simpa using ha, by simpa using hbefore⟩

end First

/-! ### Declarations -/

/-- The classes in which members are searched for, each with whether static members of it are
wanted. A search through a reference to a class goes on with the class of class references and the
root. -/
def Host.Class.searchPath (c : Host.Class) (isStatic : Bool) : List (Host.Class × Bool) :=
  if isStatic then
    c.hierarchy.map (·, true) ++ [(Host.Library.classes, false), (Host.Library.object, false)]
  else c.hierarchy.map (·, false)

/-- A declaration that a search comes to. -/
structure Declared (μ : Type) where
  /-- The class that makes it. -/
  owner : Host.Class
  /-- The member that is declared. -/
  member : μ
  /-- Whether static members of the class are wanted. -/
  wantsStatic : Bool

/-- The declarations of one sort in the order in which a search comes to them. -/
def Host.Class.declared {μ : Type} (members : Declaration → List μ) (c : Host.Class)
    (isStatic : Bool) : List (Declared μ) :=
  (c.searchPath isStatic).flatMap fun d => (members d.1.own).map (⟨d.1, ·, d.2⟩)

/-- A field that is wanted under a name. -/
def Declared.IsField (x : Declared Field) (name : String) : Prop :=
  x.member.name = name ∧ x.member.isPublic = true ∧ x.member.isStatic = x.wantsStatic

/-- A method that is wanted under a name for a number of arguments, or for any number. -/
def Declared.IsMethod (x : Declared Method) (name : String) (arity : Option Nat) : Prop :=
  x.member.name = name ∧ x.member.arity = arity ∧ x.member.isPublic = true ∧
    x.member.isStatic = x.wantsStatic

instance (name : String) : DecidablePred (Declared.IsField · name) := fun _ =>
  inferInstanceAs (Decidable (_ ∧ _ ∧ _))

instance (name : String) (arity : Option Nat) : DecidablePred (Declared.IsMethod · name arity) :=
  fun _ => inferInstanceAs (Decidable (_ ∧ _ ∧ _ ∧ _))

/-- A descriptor shows the nearest declarations and nothing else. -/
structure Descriptor.ShowsNearest (d : Descriptor) (c : Host.Class) (isStatic : Bool) : Prop where
  /-- Under a name it shows the first field of this name, as a field of the class that declares
  it. -/
  field?_iff : ∀ name entry, d.field? name = some entry ↔
    ∃ x, IsFirst (Declared.IsField · name) (c.declared Declaration.fields isStatic) x ∧
      entry = ⟨x.member, x.owner⟩
  /-- For a number of arguments it selects the first method that takes exactly as many. If there is
  none, it selects the first that takes any number. -/
  select?_iff : ∀ name count m, (d.method? name).bind (·.select? count) = some m ↔
    (∃ x, IsFirst (Declared.IsMethod · name (some count))
        (c.declared Declaration.methods isStatic) x ∧ m = x.member) ∨
    (∀ x ∈ c.declared Declaration.methods isStatic, ¬x.IsMethod name (some count)) ∧
      ∃ x, IsFirst (Declared.IsMethod · name none)
        (c.declared Declaration.methods isStatic) x ∧ m = x.member
  /-- A group has one method at most for each number of arguments. -/
  nodup_arities : ∀ g ∈ d.methods.values, (g.overloads.map Method.arity).Nodup
  /-- Only public fields are shown, and of instances no static ones. -/
  fields_public : ∀ entry ∈ d.fields.values,
    entry.field.isPublic = true ∧ (entry.field.isStatic = true → isStatic = true)
  /-- Only public methods are shown, and of instances no static ones. -/
  methods_public : ∀ g ∈ d.methods.values, ∀ m ∈ g.overloads,
    m.isPublic = true ∧ (m.isStatic = true → isStatic = true)

namespace Descriptor

variable {c : Host.Class} {isStatic : Bool}

/-! ### What is searched -/

/-- What is collected along a search is collected from the hierarchy, and for a reference to a class
from the hierarchy of class references then. -/
theorem flatMap_searchPath {β : Type} (f : Bool → Host.Class → List β) (c : Host.Class)
    (isStatic : Bool) : (c.searchPath isStatic).flatMap (fun d => f d.2 d.1) =
      if isStatic then
        c.hierarchy.flatMap (f true) ++ Host.Library.classes.hierarchy.flatMap (f false)
      else c.hierarchy.flatMap (f false) := by
  cases isStatic with
  | false => simp [Host.Class.searchPath, List.flatMap_map]
  | true =>
    have hclasses : Host.Library.classes.hierarchy = [Host.Library.classes, Host.Library.object] :=
      rfl
    simp [Host.Class.searchPath, List.flatMap_map, hclasses]

/-- The fields that are collected are those declarations that a search wants under some name. -/
theorem fieldSequence_eq (c : Host.Class) (isStatic : Bool) :
    fieldSequence c isStatic =
      ((c.declared Declaration.fields isStatic).filter fun x => x.IsField x.member.name).map
        fun x => ⟨x.member, x.owner⟩ := by
  have hof (d : Host.Class × Bool) : fieldsOf d.2 d.1 =
      ((d.1.own.fields.map fun f => (⟨d.1, f, d.2⟩ : Declared Field)).filter
        fun x => x.IsField x.member.name).map fun x => ⟨x.member, x.owner⟩ := by
    rw [List.filter_map, List.map_map]
    refine congrArg (List.map _) (List.filter_congr fun f _ => ?_)
    simp [Declared.IsField, beq_eq_decide]
  calc fieldSequence c isStatic
      = (c.searchPath isStatic).flatMap fun d => fieldsOf d.2 d.1 :=
        (flatMap_searchPath fieldsOf c isStatic).symm
    _ = _ := by rw [Host.Class.declared, List.filter_flatMap, List.map_flatMap, funext hof]

/-- The methods that are collected are those declarations that a search wants under some name. -/
theorem methodSequence_eq (c : Host.Class) (isStatic : Bool) :
    methodSequence c isStatic =
      ((c.declared Declaration.methods isStatic).filter
        fun x => x.IsMethod x.member.name x.member.arity).map Declared.member := by
  have hof (d : Host.Class × Bool) : methodsOf d.2 d.1 =
      ((d.1.own.methods.map fun m => (⟨d.1, m, d.2⟩ : Declared Method)).filter
        fun x => x.IsMethod x.member.name x.member.arity).map Declared.member := by
    rw [List.filter_map, List.map_map]
    refine (List.map_id _).symm.trans (congrArg (List.map id) (List.filter_congr fun m _ => ?_))
    simp [Declared.IsMethod, beq_eq_decide]
  calc methodSequence c isStatic
      = (c.searchPath isStatic).flatMap fun d => methodsOf d.2 d.1 :=
        (flatMap_searchPath methodsOf c isStatic).symm
    _ = _ := by rw [Host.Class.declared, List.filter_flatMap, List.map_flatMap, funext hof]

/-- The first field of a name that is collected is the first that a search wants. -/
theorem find?_fieldSequence (c : Host.Class) (isStatic : Bool) (name : String) :
    (fieldSequence c isStatic).find? (·.field.name == name) =
      ((c.declared Declaration.fields isStatic).find? fun x => x.IsField name).map
        fun x => ⟨x.member, x.owner⟩ := by
  rw [fieldSequence_eq, List.find?_map, List.find?_filter]
  refine congrArg (fun p => Option.map _ (List.find? p _)) (funext fun x => ?_)
  by_cases hname : x.member.name = name <;> simp [Declared.IsField, hname]

/-- The first method of a name and a number of arguments that is collected is the first that a
search wants. -/
theorem find?_methodSequence (c : Host.Class) (isStatic : Bool) (name : String)
    (arity : Option Nat) :
    (methodSequence c isStatic).find? (fun m => m.name == name && m.arity == arity) =
      ((c.declared Declaration.methods isStatic).find? fun x => x.IsMethod name arity).map
        Declared.member := by
  rw [methodSequence_eq, List.find?_map, List.find?_filter]
  refine congrArg (fun p => Option.map _ (List.find? p _)) (funext fun x => ?_)
  by_cases hname : x.member.name = name <;> by_cases harity : x.member.arity = arity <;>
    simp [Declared.IsMethod, hname, harity]

/-! ### What is grouped -/

/-- A group holds methods of its name, one at most for each number of arguments. -/
structure MethodGroup.Gathers (g : MethodGroup) (methods : List Method) : Prop where
  /-- No two take the same number of arguments. -/
  arities : (g.overloads.map Method.arity).Nodup
  /-- All of them are among those that were collected. -/
  overloads : ∀ m ∈ g.overloads, m ∈ methods

/-- A group stays one when a method is added. -/
theorem MethodGroup.Gathers.add {g : MethodGroup} {methods : List Method} {m : Method}
    (h : g.Gathers methods) (hm : m ∈ methods) : (g.add m).Gathers methods := by
  unfold MethodGroup.add
  split
  · exact h
  · next habsent =>
    refine ⟨?_, fun m' hm' => (List.mem_append.1 hm').elim (h.overloads m') fun heq => ?_⟩
    · have hnew : ∀ a ∈ g.overloads.map Method.arity, ∀ b ∈ [m.arity], a ≠ b := by
        intro a ha b hb hab
        obtain ⟨m', hm', rfl⟩ := List.mem_map.1 ha
        refine habsent (List.any_eq_true.2 ⟨m', hm', ?_⟩)
        rw [hab, List.mem_singleton.1 hb, BEq.rfl]
      rw [List.map_append]
      exact List.nodup_append.2 ⟨h.arities, List.nodup_singleton _, hnew⟩
    · rwa [List.mem_singleton.1 heq]

/-- All groups are made of the methods that were collected. -/
theorem gathers_collectMethods (methods : List Method) :
    ∀ g ∈ (collectMethods methods).values, g.Gathers methods := by
  -- The induction is on how many of the methods have been collected.
  have hfold (ms : List Method) (hms : ∀ m ∈ ms, m ∈ methods)
      (d : Dictionary String MethodGroup) (hd : ∀ g ∈ d.values, g.Gathers methods) :
      ∀ g ∈ (ms.foldl addMethod d).values, g.Gathers methods := by
    induction ms generalizing d with
    | nil => exact hd
    | cons m ms ih =>
      obtain ⟨hm, hms⟩ := List.forall_mem_cons.1 hms
      refine ih hms (addMethod d m) fun g hg => ?_
      obtain hold | rfl := Dictionary.mem_or_eq_of_mem_values_put hg
      · exact hd g hold
      · refine MethodGroup.Gathers.add ?_ hm
        cases hget : d.get? m.name with
        | none => exact ⟨List.nodup_nil, nofun⟩
        | some g => exact hd g (Dictionary.mem_values_of_get? hget)
  exact hfold methods (fun _ h => h) [] nofun

/-- All fields that are shown were collected. -/
theorem mem_of_mem_values_collectFields {entries : List FieldEntry} {entry : FieldEntry}
    (h : entry ∈ (collectFields entries).values) : entry ∈ entries := by
  have hfold (es : List FieldEntry) (hes : ∀ e ∈ es, e ∈ entries)
      (d : Dictionary String FieldEntry) (hd : ∀ e ∈ d.values, e ∈ entries) :
      ∀ e ∈ (es.foldl (fun d e => d.putNew e.field.name e) d).values, e ∈ entries := by
    induction es generalizing d with
    | nil => exact hd
    | cons e es ih =>
      obtain ⟨he, hes⟩ := List.forall_mem_cons.1 hes
      refine ih hes (d.putNew e.field.name e) fun e' he' => ?_
      obtain hold | rfl := Dictionary.mem_or_eq_of_mem_values_putNew he'
      · exact hd e' hold
      · exact he
  exact hfold entries (fun _ h => h) [] nofun entry h

/-! ### What is shown -/

/-- Static members are wanted just of references to a class. -/
theorem isStatic_of_wantsStatic {μ : Type} {members : Declaration → List μ} {x : Declared μ}
    (hx : x ∈ c.declared members isStatic) (hwants : x.wantsStatic = true) : isStatic = true := by
  obtain ⟨d, hd, hx⟩ := List.mem_flatMap.1 hx
  obtain ⟨m, -, rfl⟩ := List.mem_map.1 hx
  cases isStatic with
  | true => rfl
  | false =>
    obtain ⟨d', -, rfl⟩ := List.mem_map.1 hd
    exact hwants

/-- What is collected as a field is public, and static just on references to a class. -/
theorem isPublic_of_mem_fieldSequence {entry : FieldEntry}
    (h : entry ∈ fieldSequence c isStatic) :
    entry.field.isPublic = true ∧ (entry.field.isStatic = true → isStatic = true) := by
  rw [fieldSequence_eq] at h
  obtain ⟨x, hx, rfl⟩ := List.mem_map.1 h
  obtain ⟨hsearched, hfield⟩ := List.mem_filter.1 hx
  obtain ⟨-, hpublic, hstatic⟩ := of_decide_eq_true hfield
  exact ⟨hpublic, fun h => isStatic_of_wantsStatic hsearched (hstatic.symm.trans h)⟩

end Descriptor

end Membrane
