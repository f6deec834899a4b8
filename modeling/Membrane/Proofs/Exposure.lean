import Membrane.Descriptor
import Membrane.Proofs.Dictionary
import Mathlib.Data.List.Induction

/-!
# The exposed surface of a class

A descriptor collects the public members of a sequence of declarations, and of each name the first
declaration counts. So what is exposed under a name can be looked up in the sequence itself: a field
is the first of its name, and the method for a number of arguments is the first of its name that
takes exactly as many, or else the first that takes any number. Accessors are such methods.

## Main definitions

* `Descriptor.Exposes`: that some name stands for a method.

## Main results

* `Descriptor.field?_build`: the exposed field of a name.
* `Descriptor.overload?_build`, `Descriptor.select?_build`: the exposed methods of a name.
* `Descriptor.select?_of_accessor?`: accessor methods are exposed under their own name.
* `Descriptor.isPublic_of_mem_methodSequence`: only what is public is exposed, and what is static
  only on references to a class.
-/

namespace Membrane

open Host (Method)

namespace Descriptor

/-! ### Fields -/

/-- Of the fields of a name the first is collected. -/
theorem get?_collectFields (entries : List FieldEntry) (name : String) :
    (collectFields entries).get? name = entries.find? (·.field.name == name) := by
  induction entries using List.reverseRecOn with
  | nil => rfl
  | append_singleton entries e ih =>
    have hstep : collectFields (entries ++ [e]) = (collectFields entries).putNew e.field.name e :=
      List.foldl_append
    rw [hstep, Dictionary.get?_putNew, ih, List.find?_append]
    simp [List.find?_singleton]

/-- The exposed field of a name is the first of its name. -/
theorem field?_build (config : Config) (c : Host.Class) (isStatic : Bool) (name : String) :
    (build config c isStatic).field? name =
      (fieldSequence c isStatic).find? (·.field.name == name) :=
  get?_collectFields _ name

/-- The exposed fields of instances are the public ones that the classes of the hierarchy declare
for instances. -/
theorem mem_fieldSequence_instance {c : Host.Class} {entry : FieldEntry} :
    entry ∈ fieldSequence c false ↔
      entry.owner ∈ c.hierarchy ∧ entry.field ∈ entry.owner.own.fields ∧
        entry.field.isPublic ∧ entry.field.isStatic = false := by
  obtain ⟨field, owner⟩ := entry
  simp only [fieldSequence, Bool.false_eq_true, if_false, List.mem_flatMap, fieldsOf, List.mem_map,
    List.mem_filter, FieldEntry.mk.injEq]
  constructor
  · rintro ⟨d, hd, f, ⟨hf, hexposed⟩, rfl, rfl⟩
    exact ⟨hd, hf, by simpa using hexposed⟩
  · rintro ⟨hd, hf, hexposed⟩
    exact ⟨owner, hd, field, ⟨hf, by simpa using hexposed⟩, rfl, rfl⟩

/-- What is exposed as a field of a name is a field of the name that its owner declares. -/
theorem declared_of_field? {config : Config} {c : Host.Class} {isStatic : Bool} {name : String}
    {entry : FieldEntry} (h : (build config c isStatic).field? name = some entry) :
    entry.field ∈ entry.owner.own.fields ∧ entry.field.name = name := by
  rw [field?_build] at h
  have hname := List.find?_some h
  have hof (statics : Bool) (ds : List Host.Class) (he : entry ∈ ds.flatMap (fieldsOf statics)) :
      entry.field ∈ entry.owner.own.fields := by
    obtain ⟨d, -, he⟩ := List.mem_flatMap.1 he
    obtain ⟨f, hf, rfl⟩ := List.mem_map.1 he
    exact (List.mem_filter.1 hf).1
  have hmem := List.mem_of_find?_eq_some h
  refine ⟨?_, eq_of_beq hname⟩
  unfold fieldSequence at hmem
  split at hmem
  · exact (List.mem_append.1 hmem).elim (hof _ _) (hof _ _)
  · exact hof _ _ hmem

/-! ### Methods -/

/-- Of the methods of a group with the same number of arguments the first one counts. -/
theorem MethodGroup.find?_add (g : MethodGroup) (m : Method) (arity : Option Nat) :
    (g.add m).overloads.find? (·.arity == arity) =
      (g.overloads.find? (·.arity == arity)).or (if m.arity == arity then some m else none) := by
  unfold add
  by_cases hthere : g.overloads.any (·.arity == m.arity)
  · rw [if_pos hthere]
    by_cases harity : m.arity = arity
    · subst harity
      obtain ⟨m', hm'⟩ :=
        Option.isSome_iff_exists.1 (List.find?_isSome.2 (List.any_eq_true.1 hthere))
      rw [hm']
      rfl
    · simp [harity]
  · rw [if_neg hthere, List.find?_append]
    simp [List.find?_singleton]

/-- Of the methods of a name with the same number of arguments the first is collected. -/
theorem find?_collectMethods (methods : List Method) (name : String) (arity : Option Nat) :
    (((collectMethods methods).get? name).bind fun g =>
        g.overloads.find? (·.arity == arity)) =
      methods.find? fun m => m.name == name && m.arity == arity := by
  induction methods using List.reverseRecOn with
  | nil => rfl
  | append_singleton methods m ih =>
    have hstep : collectMethods (methods ++ [m]) = addMethod (collectMethods methods) m :=
      List.foldl_append
    rw [hstep, addMethod, Dictionary.get?_put, List.find?_append, ← ih]
    by_cases hname : m.name = name
    · subst hname
      cases (collectMethods methods).get? m.name <;>
        simp [MethodGroup.find?_add, List.find?_singleton]
    · simp [hname]

variable {config : Config} {c : Host.Class} {isStatic : Bool} {name : String} {d : Descriptor}
  {m : Method}

/-- The exposed method of a name that takes exactly a number of arguments is the first of its
kind. -/
theorem overload?_build (config : Config) (c : Host.Class) (isStatic : Bool) (name : String)
    (count : Nat) :
    ((build config c isStatic).method? name).bind (·.overload? count) =
      (methodSequence c isStatic).find? fun m => m.name == name && m.arity == some count :=
  find?_collectMethods _ name _

/-- Called with a number of arguments, a name stands for the first method that takes exactly as
many, and else for the first that takes any number. -/
theorem select?_build (config : Config) (c : Host.Class) (isStatic : Bool) (name : String)
    (count : Nat) :
    ((build config c isStatic).method? name).bind (·.select? count) =
      ((methodSequence c isStatic).find? fun m => m.name == name && m.arity == some count).or
        ((methodSequence c isStatic).find? fun m => m.name == name && m.arity == none) := by
  rw [← overload?_build config, ← find?_collectMethods _ name none]
  change _ = Option.or _ (((build config c isStatic).method? name).bind _)
  cases (build config c isStatic).method? name with
  | none => rfl
  | some g =>
    have hany : (fun m : Method => m.arity.isNone) = fun m => m.arity == none := by
      funext m
      cases m.arity <;> rfl
    simp only [Option.bind_some, MethodGroup.select?, MethodGroup.overload?, hany]

/-- A method that is called is one of the public methods of the hierarchy. -/
theorem mem_methodSequence_of_select? {g : MethodGroup} {count : Nat}
    (hg : (build config c isStatic).method? name = some g) (hm : g.select? count = some m) :
    m ∈ methodSequence c isStatic := by
  have hselect := select?_build config c isStatic name count
  rw [hg, Option.bind_some, hm] at hselect
  rcases Option.or_eq_some_iff.1 hselect.symm with hexact | ⟨-, hany⟩
  · exact List.mem_of_find?_eq_some hexact
  · exact List.mem_of_find?_eq_some hany

/-- An accessor method is what its own name stands for, called with as many arguments as an accessor
takes. -/
theorem select?_of_accessor? {beginnings : List String} {count : Nat}
    (h : d.accessor? beginnings count name = some m) :
    ∃ accessor g, d.method? accessor = some g ∧ g.select? count = some m := by
  unfold accessor? at h
  split at h
  · cases h
  · split at h
    · cases h
    · obtain ⟨lead, -, hlead⟩ := List.exists_of_findSome?_eq_some h
      obtain ⟨g, hg, hm⟩ := Option.bind_eq_some_iff.1 hlead
      exact ⟨_, g, hg, Option.or_eq_some_iff.2 (.inl hm)⟩

/-- A method that some name stands for, called with some number of arguments. -/
def Exposes (d : Descriptor) (m : Method) : Prop :=
  ∃ name g count, d.method? name = some g ∧ g.select? count = some m

/-- Accessor methods are exposed. -/
theorem exposes_of_accessor? {beginnings : List String} {count : Nat}
    (h : d.accessor? beginnings count name = some m) : d.Exposes m := by
  obtain ⟨accessor, g, hg, hm⟩ := select?_of_accessor? h
  exact ⟨accessor, g, count, hg, hm⟩

/-- What is exposed is one of the public methods of the hierarchy. -/
theorem mem_methodSequence_of_exposes (h : (build config c isStatic).Exposes m) :
    m ∈ methodSequence c isStatic := by
  obtain ⟨name, g, count, hg, hm⟩ := h
  exact mem_methodSequence_of_select? hg hm

/-- What is exposed is public, and static just on references to a class. -/
theorem isPublic_of_mem_methodSequence (hm : m ∈ methodSequence c isStatic) :
    m.isPublic ∧ (m.isStatic → isStatic) := by
  have hof {statics : Bool} {classes : List Host.Class}
      (h : m ∈ classes.flatMap (methodsOf statics)) : m.isPublic ∧ m.isStatic = statics := by
    obtain ⟨c', -, hc'⟩ := List.mem_flatMap.1 h
    simpa using (List.mem_filter.1 hc').2
  unfold methodSequence at hm
  split at hm
  · next hstatic => exact ⟨(List.mem_append.1 hm).elim (hof · |>.1) (hof · |>.1), fun _ => hstatic⟩
  · exact ⟨(hof hm).1, fun h => by simp [(hof hm).2] at h⟩

end Descriptor

end Membrane
