import Mathlib.Data.List.Sort
import Unpacking.Analysis.Verdict
import Unpacking.Package.Manifest
import Unpacking.Proofs.Package.Facts

/-!
The packing verdict. A manifest declares components under short or full names, before or behind the
package that the short ones belong to. The missing classes are those components whose full name no
class has. The order of the declarations and of the classes plays no part in that.
-/

namespace Unpacking

open Text Markup

/-! ### Names in payload form -/

theorem Text.substitute_singleton (mark replacement : Char) (text : Text) :
    substitute mark [replacement] text =
      text.map fun c => if c = mark then replacement else c := by
  rw [substitute, List.map_eq_flatMap]
  congr 1
  funext c
  split <;> rfl

/-- Names without slashes differ in payload form as they do by themselves. -/
theorem eq_of_payloadName_eq {name other : Text} (plain : '/' ∉ name) (otherPlain : '/' ∉ other)
    (same : payloadName name = payloadName other) : name = other := by
  have dotted {text : Text} (plain : '/' ∉ text) :
      (substitute '.' "/" text).map (fun c => if c = '/' then '.' else c) = text := by
    have slash : (("/" : String) : Text) = ['/'] := rfl
    rw [slash, substitute_singleton, List.map_map]
    conv_rhs => rw [← List.map_id text]
    refine List.map_congr_left fun c member => ?_
    have other : c ≠ '/' := fun equal => plain (equal ▸ member)
    by_cases dot : c = '.' <;> simp [dot, other]
  have slashed := List.append_cancel_right same
  rw [← dotted plain, slashed, dotted otherPlain]

/-! ### Declared components -/

namespace Manifest

theorem mem_values {condition : Element → Bool} {key value : Text} {elements : List Element} :
    value ∈ values condition key elements ↔
      ∃ element ∈ elements, condition element = true ∧ { key, value } ∈ element.attributes := by
  simp only [values, List.mem_flatMap]
  refine exists_congr fun element => and_congr_right fun _ => ?_
  split
  · rename_i holds
    simp only [List.mem_map, List.mem_filter, beq_iff_eq, holds, true_and]
    constructor
    · rintro ⟨⟨_, _⟩, ⟨member, rfl⟩, rfl⟩
      exact member
    · intro member
      exact ⟨_, ⟨member, rfl⟩, rfl⟩
  · rename_i fails
    simp [fails]

/-- The values of the package attribute on the elements named for the manifest. -/
def packages (elements : List Element) : List Text :=
  values (fun element => element.name == "manifest") "package" elements

/-- An element declares a component under a value. -/
def Declares (elements : List Element) (value : Text) : Prop :=
  ∃ element ∈ elements, element.name ∈ componentTags ∧
    { key := "android:name", value } ∈ element.attributes

/-- A name inside a package, if there is one. -/
def inside (package : Option Text) (name : Text) : Text :=
  match package with
  | some package => package ++ "." ++ name
  | none => name

/-- The full name that a declared value stands for. -/
inductive StandsFor (package : Option Text) : Text → Text → Prop
  /-- A dot stands for the package. -/
  | relative (name : Text) : StandsFor package ('.' :: name) (inside package name)
  /-- A name without dots lies in the package. -/
  | bare {name : Text} (dotless : '.' ∉ name) : StandsFor package name (inside package name)
  | full {name : Text} (dotted : '.' ∈ name) (apart : name.head? ≠ some '.') :
      StandsFor package name name

theorem resolve_cons_of_ne {package : Option Text} {c : Char} {name : Text} (other : c ≠ '.') :
    resolve package (c :: name) =
      if '.' ∈ c :: name then c :: name else inside package (c :: name) := by
  have absolute (relative : Text) (same : c :: name = '.' :: relative) : False :=
    other (List.cons.inj same).1
  rw [resolve]
  · simp only [List.contains_iff_mem]
    rfl
  · exact absolute

/-- Every value stands for one full name, the one it is resolved to. -/
theorem standsFor_iff {package : Option Text} {value name : Text} :
    StandsFor package value name ↔ name = resolve package value := by
  cases value with
  | nil =>
      constructor
      · rintro (_ | _ | ⟨dotted, _⟩)
        · rfl
        · simp at dotted
      · rintro rfl
        exact .bare (by simp)
  | cons c value =>
      by_cases dot : c = '.'
      · subst dot
        constructor
        · rintro (_ | dotless | ⟨_, apart⟩)
          · rfl
          · simp at dotless
          · simp at apart
        · rintro rfl
          exact .relative value
      · rw [resolve_cons_of_ne dot]
        constructor
        · rintro (_ | dotless | ⟨dotted, _⟩)
          · exact absurd rfl dot
          · rw [if_neg dotless]
          · rw [if_pos dotted]
        · rintro rfl
          split
          · rename_i dotted
            exact .full dotted (by simpa using dot)
          · rename_i dotless
            exact .bare dotless

theorem not_mem_resolve {package : Option Text} {value : Text} {c : Char} (other : c ≠ '.')
    (inPackage : ∀ name ∈ package, c ∉ name) (inValue : c ∉ value) :
    c ∉ resolve package value := by
  have within {name : Text} (free : c ∉ name) : c ∉ inside package name := by
    cases package with
    | none => exact free
    | some package => simp [inside, inPackage package rfl, free, other]
  obtain ⟨name, stands⟩ : ∃ name, StandsFor package value name := ⟨_, standsFor_iff.mpr rfl⟩
  rw [← standsFor_iff.mp stands]
  cases stands with
  | relative name => exact within fun member => inValue (List.mem_cons_of_mem _ member)
  | bare => exact within inValue
  | full => exact inValue

theorem mem_componentClasses {text name : Text} {package : Option Text}
    (single : packages (elements text) = package.toList) :
    name ∈ (parse text).componentClasses.toList ↔
      ∃ value, Declares (elements text) value ∧ name = payloadName (resolve package value) := by
  have last : (packages (elements text)).getLast? = package := by
    rw [single]
    cases package <;> rfl
  simp only [packages] at last
  simp only [parse, ofElements, last, NameSet.ofList, NameSet.mem_insertAll, NameSet.empty,
    List.not_mem_nil, or_false, List.mem_map, mem_values, List.contains_iff_mem, Declares,
    eq_comm (a := name)]

end Manifest

theorem Facts.mem_payload {classes : List ClassFact} {resources : List (Text × Text)}
    {name : Text} :
    name ∈ (ofClasses classes resources).payload.toList ↔
      ∃ fact ∈ classes, payloadName fact.name = name := by
  have names (other : Text) (sorted : List ClassFact) :
      other ∈ (classes.foldl (fun sorted fact => fact.insertInto sorted) sorted).map
          ClassFact.name ↔
        other ∈ classes.map ClassFact.name ∨ other ∈ sorted.map ClassFact.name := by
    induction classes generalizing sorted with
    | nil => simp
    | cons fact rest inductionHypothesis =>
        rw [List.foldl_cons, inductionHypothesis, map_name_insertInto, NameSet.mem_insertInto,
          List.map_cons, List.mem_cons]
        tauto
  have inFacts (other : Text) : other ∈ (ofClasses classes resources).classes.map ClassFact.name ↔
      other ∈ classes.map ClassFact.name := by
    rw [ofClasses, names]
    simp
  have byName (known : List ClassFact) : (∃ fact ∈ known, payloadName fact.name = name) ↔
      ∃ other ∈ known.map ClassFact.name, payloadName other = name := by
    simp
  simp only [payload, NameSet.ofList, NameSet.mem_insertAll, NameSet.empty, List.not_mem_nil,
    or_false, List.mem_map]
  rw [byName, byName]
  simp only [inFacts]

/-! ### Missing components -/

namespace Packing

/-- A component that is declared under some value has this full name, and no class has it. -/
def IsMissing (package : Option Text) (elements : List Element) (classes : List ClassFact)
    (name : Text) : Prop :=
  (∃ value, Manifest.Declares elements value ∧ Manifest.StandsFor package value name) ∧
    ∀ fact ∈ classes, fact.name ≠ name

/-- The missing classes of a manifest and some classes. -/
def missingFrom (text : Text) (classes : List ClassFact) (resources : List (Text × Text)) :
    NameSet :=
  missing (Manifest.parse text).componentClasses (Facts.ofClasses classes resources).payload

theorem isPacked_iff {set : NameSet} : isPacked set = true ↔ ∃ name, name ∈ set.toList := by
  rw [isPacked, Bool.not_eq_true', Bool.eq_false_iff, Ne, NameSet.isEmpty_iff]
  exact ⟨List.exists_mem_of_ne_nil _, fun ⟨_, member⟩ => List.ne_nil_of_mem member⟩

variable {text : Text} {classes : List ClassFact} {package : Option Text}

theorem mem_missingFrom (single : Manifest.packages (elements text) = package.toList)
    (plainPackage : ∀ name ∈ package, '/' ∉ name)
    (plainValues : ∀ value, Manifest.Declares (elements text) value → '/' ∉ value)
    (plainClasses : ∀ fact ∈ classes, '/' ∉ fact.name) (resources : List (Text × Text))
    (name : Text) :
    name ∈ (missingFrom text classes resources).toList ↔
      ∃ full, IsMissing package (elements text) classes full ∧ name = payloadName full := by
  have declared : name ∈ (missingFrom text classes resources).toList ↔
      (∃ value, Manifest.Declares (elements text) value ∧
        name = payloadName (Manifest.resolve package value)) ∧
      ¬∃ fact ∈ classes, payloadName fact.name = name := by
    simp only [missingFrom, missing, NameSet.difference, NameSet.contains, List.mem_filter,
      Bool.not_eq_true', List.contains_eq_mem, decide_eq_false_iff_not, Facts.mem_payload,
      Manifest.mem_componentClasses single]
  rw [declared]
  constructor
  · rintro ⟨⟨value, isDeclared, rfl⟩, absent⟩
    refine ⟨_, ⟨⟨value, isDeclared, Manifest.standsFor_iff.mpr rfl⟩, ?_⟩, rfl⟩
    intro fact member same
    exact absent ⟨fact, member, by rw [same]⟩
  · rintro ⟨full, ⟨⟨value, isDeclared, stands⟩, absent⟩, rfl⟩
    obtain rfl := Manifest.standsFor_iff.mp stands
    refine ⟨⟨value, isDeclared, rfl⟩, ?_⟩
    rintro ⟨fact, member, same⟩
    -- Without slashes in the names, the payload form of a class is that of no other name.
    exact absent fact member (eq_of_payloadName_eq (plainClasses fact member)
      (Manifest.not_mem_resolve (by decide) plainPackage (plainValues value isDeclared)) same)

/-- The missing classes are, in rising order, the components whose full name no class has, and a
package is packed exactly if there is one. Neither the order nor the repetition of classes and
component elements changes them, nor does the place of the package attribute. -/
theorem missingFrom_iff (single : Manifest.packages (elements text) = package.toList)
    (plainPackage : ∀ name ∈ package, '/' ∉ name)
    (plainValues : ∀ value, Manifest.Declares (elements text) value → '/' ∉ value)
    (plainClasses : ∀ fact ∈ classes, '/' ∉ fact.name) (resources : List (Text × Text)) :
    (missingFrom text classes resources).toList.Pairwise (fun a b => precedes a b = true) ∧
      (∀ name, name ∈ (missingFrom text classes resources).toList ↔
        ∃ full, IsMissing package (elements text) classes full ∧ name = payloadName full) ∧
      (isPacked (missingFrom text classes resources) = true ↔
        ∃ full, IsMissing package (elements text) classes full) ∧
      ∀ otherText otherClasses otherResources,
        (∀ fact, fact ∈ otherClasses ↔ fact ∈ classes) →
        (∀ element, element.name ∈ Manifest.componentTags →
          (element ∈ elements otherText ↔ element ∈ elements text)) →
        Manifest.packages (elements otherText) = package.toList →
        missingFrom otherText otherClasses otherResources =
          missingFrom text classes resources := by
  have members := mem_missingFrom single plainPackage plainValues plainClasses resources
  refine ⟨NameSet.rising _, members, ?_, ?_⟩
  · rw [isPacked_iff]
    constructor
    · rintro ⟨name, member⟩
      obtain ⟨full, absent, -⟩ := (members name).mp member
      exact ⟨full, absent⟩
    · rintro ⟨full, absent⟩
      exact ⟨payloadName full, (members _).mpr ⟨full, absent, rfl⟩⟩
  · intro otherText otherClasses otherResources sameClasses sameElements otherSingle
    have sameValues (value : Text) : Manifest.Declares (elements otherText) value ↔
        Manifest.Declares (elements text) value := by
      refine exists_congr fun element => ?_
      constructor
      · rintro ⟨member, component, named⟩
        exact ⟨(sameElements element component).mp member, component, named⟩
      · rintro ⟨member, component, named⟩
        exact ⟨(sameElements element component).mpr member, component, named⟩
    have otherMembers := mem_missingFrom otherSingle plainPackage
      (fun value isDeclared => plainValues value ((sameValues value).mp isDeclared))
      (fun fact member => plainClasses fact ((sameClasses fact).mp member)) otherResources
    refine NameSet.eq_of_mem_iff fun name => ?_
    rw [otherMembers, members]
    simp only [IsMissing, sameValues, sameClasses]

/-- A relative, a bare and a full name before the package, and in another order behind it. -/
theorem missingFrom_reordered :
    let before : Text := "<activity android:name='.X'/><service android:name='Y'/>" ++
      "<receiver android:name='b.Z'/><manifest package='a'/>"
    let behind : Text := "<manifest package='a'><receiver android:name='b.Z'/>" ++
      "<service android:name='Y'/><activity android:name='.X'/><service android:name='Y'/>"
    let present : ClassFact := { name := "a.Y", source := [] }
    (missingFrom before [present] []).toList = ["a/X.class".toList, "b/Z.class".toList] ∧
      isPacked (missingFrom before [present] []) = true ∧
      missingFrom behind [present, present] [] = missingFrom before [present] [] := by
  intro before behind present
  let activity : Element := { name := "activity", attributes := [⟨"android:name", ".X"⟩] }
  let service : Element := { name := "service", attributes := [⟨"android:name", "Y"⟩] }
  let receiver : Element := { name := "receiver", attributes := [⟨"android:name", "b.Z"⟩] }
  let manifest : Element := { name := "manifest", attributes := [⟨"package", "a"⟩] }
  have readBefore : elements before = [activity, service, receiver, manifest] := by decide +kernel
  have readBehind : elements behind = [manifest, receiver, service, activity, service] := by
    decide +kernel
  have single : Manifest.packages (elements before) = (some ['a']).toList := by
    rw [readBefore]
    decide +kernel
  have otherSingle : Manifest.packages (elements behind) = (some ['a']).toList := by
    rw [readBehind]
    decide +kernel
  have plainValues (value : Text) (isDeclared : Manifest.Declares (elements before) value) :
      '/' ∉ value := by
    have plain : ∀ element ∈ elements before, ∀ entry ∈ element.attributes,
        '/' ∉ entry.value := by
      rw [readBefore]
      decide +kernel
    obtain ⟨element, member, -, named⟩ := isDeclared
    exact plain element member _ named
  obtain ⟨-, members, packed, same⟩ := missingFrom_iff single (by simp) plainValues
    (by decide +kernel : ∀ fact ∈ [present], '/' ∉ fact.name) []
  have found : (missingFrom before [present] []).toList =
      ["a/X.class".toList, "b/Z.class".toList] := by
    rw [missingFrom, Manifest.parse, readBefore]
    decide +kernel
  refine ⟨found, packed.mpr ?_, same behind [present, present] [] (by simp) ?_ otherSingle⟩
  · obtain ⟨full, absent, -⟩ := (members "a/X.class".toList).mp (by simp [found])
    exact ⟨full, absent⟩
  · intro element component
    have other : element ≠ manifest := by
      rintro rfl
      exact absurd component (by decide +kernel)
    have shuffled {a b c : Prop} : a ∨ b ∨ c ∨ b ↔ c ∨ b ∨ a := by
      clear * -
      tauto
    simp only [readBefore, readBehind, List.mem_cons, List.not_mem_nil, other, false_or, or_false]
    exact shuffled

end Packing

end Unpacking
