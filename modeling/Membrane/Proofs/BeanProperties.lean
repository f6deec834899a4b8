import Membrane.Proofs.Describing
import Membrane.Proofs.Privacy
import Membrane.Proofs.Resolution
import Membrane.Proofs.SmallForms

/-!
# Properties of getters

A method without arguments whose name is a beginning and a word with a capital first letter makes a
property: the word with that letter in small form. The name of the property leads back to the method
if the capital form of its first letter is the letter that was there, which is so for all letters
but six. So all that a plain object or a reference to a class lists is there when it is asked for,
except properties that were made from one of these letters.

## Main definitions

* `Descriptor.ReadsBy`: that a method without arguments makes a property.
* `Descriptor.MadeFrom`: how the name of a property is made from that of a method.

## Main results

* `Descriptor.madeFrom_of_readsBy`: all properties of getters are made in this way.
* `Descriptor.MadeFrom.rebuilds_iff`: when the name of the method is made from that of the property.
* `Descriptor.getter?_of_readsBy`: a property whose name leads back is read by some method.
* `listed_members_resolve`: what is listed is there.
-/

namespace Membrane

open Host (Data Method Value)

namespace Descriptor

variable {config : Config} {c : Host.Class} {isStatic : Bool} {d : Descriptor}
  {beginnings : List String} {name property : String} {letter : Char}

/-! ### Names -/

/-- What is left is what follows the beginning. -/
theorem dropLead?_eq_some_iff {lead cs rest : List Char} :
    dropLead? lead cs = some rest ↔ cs = lead ++ rest := by
  fun_induction dropLead? lead cs with
  | case1 cs => rw [Option.some.injEq, List.nil_append]
  | case2 l ls => simp
  | case3 l ls cs ih => rw [ih, List.cons_append, List.cons.injEq, and_iff_right rfl]
  | case4 l ls c cs hne => simp [Ne.symm hne]

/-- The name of a method is a beginning, an upper-case letter and more characters, and that of the
property is the small form of the letter and these characters. -/
def MadeFrom (lead property name : String) (letter : Char) : Prop :=
  Text.isCapital letter = true ∧ ∃ cs, name = lead ++ String.ofList (letter :: cs) ∧
    property = String.ofList (Text.small letter ++ cs)

theorem exists_of_propertyOf? (h : propertyOf? beginnings name = some property) :
    ∃ lead ∈ beginnings, ∃ letter, MadeFrom lead property name letter := by
  obtain ⟨lead, hlead, hfound⟩ := List.exists_of_findSome?_eq_some h
  obtain ⟨chars, hchars, rfl⟩ := Option.map_eq_some_iff.1 hfound
  obtain ⟨rest, hrest, huncapitalized⟩ := Option.bind_eq_some_iff.1 hchars
  cases rest with
  | nil => cases huncapitalized
  | cons letter cs =>
    rw [Text.uncapitalize?] at huncapitalized
    split at huncapitalized
    · next hcapital =>
      cases huncapitalized
      refine ⟨lead, hlead, letter, hcapital, cs, ?_, rfl⟩
      rw [← String.toList_inj, dropLead?_eq_some_iff.1 hrest, String.toList_append,
        String.toList_ofList]
    · cases huncapitalized

/-- The name of the method is made again from that of the property if and only if the letter comes
back from its small form. -/
theorem MadeFrom.rebuilds_iff {lead : String} (h : MadeFrom lead property name letter) :
    (Text.capitalize? property.toList).map (lead ++ String.ofList ·) = some name ↔
      letter ∉ Text.oneWayCapitals := by
  obtain ⟨hcapital, cs, rfl, rfl⟩ := h
  rw [← Text.capitalize?_small_iff hcapital cs, String.toList_ofList, Option.map_eq_some_iff]
  constructor
  · rintro ⟨suffix, hsuffix, hname⟩
    have hchars : lead.toList ++ suffix = lead.toList ++ letter :: cs := by
      simpa using congrArg String.toList hname
    rw [hsuffix, List.append_cancel_left hchars]
  · exact fun hsuffix => ⟨letter :: cs, hsuffix, rfl⟩

/-! ### Properties -/

/-- A method of the name without arguments makes the property. -/
def ReadsBy (d : Descriptor) (property name : String) : Prop :=
  d.accessors = true ∧ (∃ group, d.method? name = some group ∧ (group.overload? 0).isSome) ∧
    propertyOf? d.getterPrefixes name = some property

/-- Methods are collected under different names. -/
theorem distinct_keys_collectMethods (methods : List Method) :
    Members.Distinct (collectMethods methods).keys := by
  have hfold (d : Dictionary String MethodGroup) (h : Members.Distinct d.keys) :
      Members.Distinct (methods.foldl addMethod d).keys := by
    induction methods generalizing d with
    | nil => exact h
    | cons m methods ih => exact ih (addMethod d m) (Dictionary.distinct_keys_put h)
  exact hfold [] .nil

/-- The properties that getters contribute are those that methods make. -/
theorem mem_getterProperties_iff : property ∈ (build config c isStatic).getterProperties ↔
    ∃ name, (build config c isStatic).ReadsBy property name := by
  set d := build config c isStatic with hd
  unfold getterProperties
  cases haccessors : d.accessors with
  | false => simp [ReadsBy, haccessors]
  | true =>
    rw [if_neg (by simp), List.mem_filterMap]
    constructor
    · rintro ⟨⟨name, group⟩, hmem, hproperty⟩
      simp only at hproperty
      split at hproperty
      · next hoverload =>
        have hfound : d.method? name = some group :=
          Dictionary.get?_of_mem (hd ▸ distinct_keys_collectMethods _) hmem
        exact ⟨name, haccessors, ⟨group, hfound, hoverload⟩, hproperty⟩
      · cases hproperty
    · rintro ⟨name, -, ⟨group, hfound, hoverload⟩, hproperty⟩
      exact ⟨(name, group), Dictionary.mem_of_get? hfound, (if_pos hoverload).trans hproperty⟩

/-- A property that a method makes is read by some method without arguments if the name of the
method is made again from its own. -/
theorem getter?_of_readsBy {lead : String}
    (hreads : (build config c isStatic).ReadsBy property name)
    (hlead : lead ∈ (build config c isStatic).getterPrefixes)
    (hback : (Text.capitalize? property.toList).map (lead ++ String.ofList ·) = some name) :
    ∃ m, (build config c isStatic).getter? property = some m ∧ m.arity = some 0 := by
  obtain ⟨haccessors, ⟨group, hgroup, hoverload⟩, -⟩ := hreads
  obtain ⟨suffix, hsuffix, rfl⟩ := Option.map_eq_some_iff.1 hback
  have hsome : ((build config c isStatic).getter? property).isSome = true := by
    unfold getter? accessor?
    rw [haccessors, hsuffix]
    refine List.findSome?_isSome_iff.2 ⟨lead, hlead, ?_⟩
    rw [hgroup, Option.bind_some, hoverload]
  obtain ⟨m, hm⟩ := Option.isSome_iff_exists.1 hsome
  exact ⟨m, hm, (mem_methodSequence_of_accessor? hm).2⟩

end Descriptor

/-! ### What is listed -/

section Listing

variable {eng : Engine} {config : Config} {h : Handler} {r : Ref .handler} {w : World}

/-- What has fields alone, or refers to a class, lists the names of its members. -/
theorem ownKeys_of_shows (hshows : h.Shows config w) (hr : w.handlers.get? r = some h)
    (hmembers : w.data? h.target = some .plain ∨ ∃ c, w.data? h.target = some (.classRef c)) :
    ∃ w', Run.ownKeys r w = .ok h.descriptor.memberNames w' ∧ w'.objects = w.objects := by
  have hunique : ∃ w', Run.uniqueKeys r w = .ok h.descriptor.memberNames w' ∧
      w'.objects = w.objects := by
    have hnone : w.keys? h.target = none := by
      unfold World.keys?
      obtain hdata | ⟨c, hdata⟩ := hmembers <;> rw [hdata]
    obtain ⟨w', hunique, hobjects⟩ := uniqueKeys_of_keys?_eq_none hr hnone
    refine ⟨w', hunique.trans ?_, hobjects⟩
    cases hcaptured : h.uniqueKeys with
    | none => rfl
    | some keys => rw [hshows.captured hnone keys hcaptured]; rfl
  unfold Run.ownKeys
  rw [Run.get_bind, hr, Option.bind_some]
  obtain hdata | ⟨c, hdata⟩ := hmembers <;> rw [hdata] <;> exact hunique

/-- What has no elements has the property that a member of it answers for. -/
theorem Engine.hasProperty_of_hasMember {property : Script.Value}
    (hmembers : w.data? h.target = some .plain ∨ ∃ c, w.data? h.target = some (.classRef c))
    (hmember : h.hasMember property = true) : eng.hasProperty h property w = .ok true w := by
  have helement : eng.hasElement h property w = .ok false w := by
    unfold hasElement
    rw [Run.get_bind]
    obtain hdata | ⟨c, hdata⟩ := hmembers <;> rw [hdata] <;> rfl
  unfold hasProperty
  rw [Run.bind_of_ok helement, hmember]
  rfl

/-- Whichever traps have been called, a plain object or a reference to a class lists the names of
its exposed fields and of the properties that methods without arguments make, and what it lists is
there when it is asked for, unless it is no field and all methods that make it start with a one-way
letter after their beginning. If one starts with another letter, its name is made again from that of
the property, and the property is read by a method without arguments. -/
theorem listed_members_resolve (eng : Engine)
    (hmethod : ∀ code receiver args,
      (eng.method code receiver args).Within (World.KeepsShown eng.config))
    {w₀ : World} (hw₀ : w₀.ShowsTargets eng.config) (calls : List TrapCall)
    (hr : (TrapCall.runAll eng calls w₀).handlers.get? r = some h)
    (hmembers : (TrapCall.runAll eng calls w₀).data? h.target = some .plain ∨
      ∃ c, (TrapCall.runAll eng calls w₀).data? h.target = some (.classRef c)) :
    ∃ listed w, Run.ownKeys r (TrapCall.runAll eng calls w₀) = .ok listed w ∧
      (∀ key, key ∈ listed ↔
        (h.descriptor.field? key).isSome ∨ ∃ name, h.descriptor.ReadsBy key name) ∧
      (∀ key ∈ listed, eng.hasProperty h (.string key) w = .ok true w ∨
        h.descriptor.field? key = none ∧ ∀ name, h.descriptor.ReadsBy key name →
          ∃ lead ∈ eng.config.getterPrefixes, ∃ letter ∈ Text.oneWayCapitals,
            Descriptor.MadeFrom lead key name letter) ∧
      ∀ key name, h.descriptor.ReadsBy key name →
        ∃ lead ∈ eng.config.getterPrefixes, ∃ letter, Descriptor.MadeFrom lead key name letter ∧
          ((Text.capitalize? key.toList).map (lead ++ String.ofList ·) = some name ↔
            letter ∉ Text.oneWayCapitals) ∧
          (letter ∉ Text.oneWayCapitals →
            ∃ m, h.descriptor.getter? key = some m ∧ m.arity = some 0) := by
  have hshows := ((TrapCall.keepsShown_runAll hmethod calls w₀).shows hw₀).handlers r h hr
  obtain ⟨w, hlisted, hobjects⟩ := ownKeys_of_shows hshows hr hmembers
  have hmembers' : w.data? h.target = some .plain ∨ ∃ c, w.data? h.target = some (.classRef c) := by
    rwa [World.data?_congr hobjects]
  obtain ⟨c, isStatic, -, hbuilt⟩ := hshows.descriptor
  have hnames (key : String) : key ∈ h.descriptor.memberNames ↔
      (h.descriptor.field? key).isSome ∨ ∃ name, h.descriptor.ReadsBy key name := by
    rw [Descriptor.memberNames, Members.mem_ofList, List.mem_append, hbuilt,
      Descriptor.mem_getterProperties_iff]
    exact or_congr_left Dictionary.isSome_get?_iff.symm
  have hmade (key name : String) (hreads : h.descriptor.ReadsBy key name) :
      ∃ lead ∈ eng.config.getterPrefixes, ∃ letter, Descriptor.MadeFrom lead key name letter ∧
        ((Text.capitalize? key.toList).map (lead ++ String.ofList ·) = some name ↔
          letter ∉ Text.oneWayCapitals) ∧
        (letter ∉ Text.oneWayCapitals →
          ∃ m, h.descriptor.getter? key = some m ∧ m.arity = some 0) := by
    rw [hbuilt] at hreads ⊢
    obtain ⟨lead, hlead, letter, hfrom⟩ := Descriptor.exists_of_propertyOf? hreads.2.2
    exact ⟨lead, hlead, letter, hfrom, hfrom.rebuilds_iff, fun hletter =>
      Descriptor.getter?_of_readsBy hreads hlead (hfrom.rebuilds_iff.2 hletter)⟩
  refine ⟨_, w, hlisted, hnames, fun key hkey => ?_, hmade⟩
  by_cases hmember : h.hasMember (.string key) = true
  · exact .inl (Engine.hasProperty_of_hasMember hmembers' hmember)
  · -- The property has no getter, so that every letter it is made from is one-way.
    have hnone : h.descriptor.field? key = none ∧ h.descriptor.getter? key = none := by
      simp [Handler.hasMember, Script.Value.propertyName?] at hmember
      exact ⟨hmember.1.1, hmember.2⟩
    refine .inr ⟨hnone.1, fun name hreads => ?_⟩
    obtain ⟨lead, hlead, letter, hfrom, -, hgetter⟩ := hmade key name hreads
    refine ⟨lead, hlead, letter, by_contra fun hletter => ?_, hfrom⟩
    obtain ⟨m, hm, -⟩ := hgetter hletter
    rw [hnone.2] at hm
    cases hm

end Listing

/-- A class with two getters. After its beginning, the name of the second one goes on with the sign
of kelvin. -/
def withKelvin : Host.Class :=
  .extending ⟨Host.Library.firstSerial, "K", none, none, none, [],
    [⟨"getName", some 0, false, true, .custom 0⟩,
      ⟨"get" ++ String.ofList [Char.ofNat 0x212A, 'x'], some 0, false, true, .custom 0⟩]⟩
    Host.Library.object

/-- The world with a proxied object of a class and nothing else. -/
def World.ofProxied (c : Host.Class) : World :=
  { World.ofObject c with
    handlers := ({} : Store .handler Handler).alloc (onlyObjectHandler c) }

theorem World.showsTargets_ofProxied (c : Host.Class) :
    (World.ofProxied c).ShowsTargets Config.standard where
  descriptors _ hd := by cases hd
  handlers r h hr := by
    obtain hr | rfl := Store.get?_or_eq_of_alloc hr
    · simp [Store.get?] at hr
    · exact ⟨⟨c, false, rfl, rfl⟩, fun _ _ hkeys => by cases hkeys⟩

/-- The object lists the properties of both getters. That of the first is there. -/
theorem listed_members_resolve_withKelvin :
    ∃ listed w, Run.ownKeys ⟨0⟩ (World.ofProxied withKelvin) = .ok listed w ∧ "name" ∈ listed ∧
      "kx" ∈ listed ∧
      (Engine.direct Config.standard).hasProperty (onlyObjectHandler withKelvin)
        (.string "name") w = .ok true w := by
  obtain ⟨listed, w, hlisted, hkeys, hthere, hmade⟩ :=
    listed_members_resolve (Engine.direct Config.standard) (fun _ _ _ => .pure _)
      (World.showsTargets_ofProxied withKelvin) [] (r := ⟨0⟩) (h := onlyObjectHandler withKelvin)
      rfl (.inl rfl)
  have hname : (onlyObjectHandler withKelvin).descriptor.ReadsBy "name" "getName" :=
    ⟨rfl, ⟨_, rfl, rfl⟩, by decide +kernel⟩
  have hkelvin : (onlyObjectHandler withKelvin).descriptor.ReadsBy "kx"
      ("get" ++ String.ofList [Char.ofNat 0x212A, 'x']) :=
    ⟨rfl, ⟨_, rfl, rfl⟩, by decide +kernel⟩
  have hlistedName := (hkeys "name").2 (.inr ⟨_, hname⟩)
  refine ⟨listed, w, hlisted, hlistedName, (hkeys "kx").2 (.inr ⟨_, hkelvin⟩), ?_⟩
  refine (hthere "name" hlistedName).resolve_right ?_
  rintro ⟨-, hlost⟩
  obtain ⟨lead, -, letter, hletter, -, cs, hchars, -⟩ := hlost "getName" hname
  have hin : letter ∈ "getName".toList := by simp [hchars]
  have hnone : ("getName".toList.all fun letter => !Text.oneWayCapitals.contains letter) = true :=
    rfl
  have hother := List.all_eq_true.1 hnone letter hin
  simp [hletter] at hother

/-- The property of the second getter is listed and not there, since the capital form of its first
letter is another than that of the method. -/
theorem listed_not_there_withKelvin :
    ∃ listed w, Run.ownKeys ⟨0⟩ (World.ofProxied withKelvin) = .ok listed w ∧ "kx" ∈ listed ∧
      (Engine.direct Config.standard).hasProperty (onlyObjectHandler withKelvin) (.string "kx") w =
        .ok false w :=
  ⟨_, _, rfl, by decide +kernel, rfl⟩

end Membrane
