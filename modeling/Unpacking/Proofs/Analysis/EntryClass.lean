import Unpacking.Analysis.EntryClass
import Unpacking.Proofs.File.Path
import Unpacking.Proofs.Package.Facts
import Unpacking.Proofs.Text.Order

/-!
The choice of the entry class. It is stated on the listed classes alone, by the names that they
carry and the order of the bytes of those names, so it does not depend on how they were listed.
Main statement: `resolve_ofClasses`.
-/

namespace Unpacking.EntryClass

open Text Facts

/-! ### Candidates -/

/-- The part of a name behind its package. -/
def IsSimpleNameOf (name simple : Text) : Prop :=
  '.' ∉ simple ∧ (name = simple ∨ ∃ package, name = package ++ '.' :: simple)

theorem isSimpleNameOf_iff {name simple : Text} :
    IsSimpleNameOf name simple ↔ simple = lastPart name := by
  rw [lastPart, IsSimpleNameOf]
  cases cut : cutLast? '.' name with
  | none =>
      have free := cutLast?_eq_none_iff.mp cut
      constructor
      · rintro ⟨-, rfl | ⟨package, rfl⟩⟩
        · rfl
        · simp at free
      · rintro rfl
        exact ⟨free, .inl rfl⟩
  | some parts =>
      obtain ⟨whole, free⟩ := cutLast?_eq_some_iff.mp cut
      constructor
      · rintro ⟨simpleFree, rfl | ⟨package, split⟩⟩
        · simp [whole] at simpleFree
        · have again := cutLast?_eq_some_iff.mpr ⟨split, simpleFree⟩
          rw [cut, Option.some.injEq] at again
          rw [again]
      · rintro rfl
        exact ⟨free, .inr ⟨parts.1, whole⟩⟩

/-- A class names the base class as its superclass, in full or by the simple name of an import. -/
def IsCandidate (base : Text) (fact : ClassFact) : Prop :=
  ∃ superclass, fact.superclass = some superclass ∧
    (superclass = base ∨ IsSimpleNameOf base superclass ∧ base ∈ fact.imports)

theorem extendsBase_iff {base : Text} {fact : ClassFact} :
    extendsBase base fact = true ↔ IsCandidate base fact := by
  rw [extendsBase, IsCandidate]
  cases fact.superclass with
  | none => simp
  | some superclass => simp [isSimpleNameOf_iff]

theorem mem_candidates {base : Text} {facts : Facts} {fact : ClassFact} :
    fact ∈ candidates base facts ↔ fact ∈ facts.classes ∧ IsCandidate base fact := by
  rw [candidates, List.mem_filter, extendsBase_iff]

/-! ### Choice -/

variable {base : Text} {preferred : Option Text}

/-- In rising order the first class is the one before all others. -/
theorem head?_eq_some_iff_of_rising {found : List ClassFact} {fact : ClassFact}
    (rising : found.Pairwise fun a b => precedes a.name b.name = true) :
    found.head? = some fact ↔
      fact ∈ found ∧ ∀ other ∈ found, other ≠ fact → precedes fact.name other.name = true := by
  cases found with
  | nil => simp
  | cons first rest =>
      obtain ⟨smallest, -⟩ := List.pairwise_cons.mp rising
      rw [List.head?_cons, Option.some.injEq]
      constructor
      · rintro rfl
        refine ⟨List.mem_cons_self, fun other member different => ?_⟩
        exact smallest other ((List.mem_cons.mp member).resolve_left different)
      · rintro ⟨member, before⟩
        by_contra different
        have after := smallest fact ((List.mem_cons.mp member).resolve_left (Ne.symm different))
        exact precedes_asymm after (before first List.mem_cons_self different)

/-- Among classes with distinct names a class is found by its name. -/
theorem find?_eq_some_iff_of_distinct {found : List ClassFact} {fact : ClassFact} {name : Text}
    (distinct : (found.map ClassFact.name).Nodup) :
    (found.find? fun fact => fact.name == name) = some fact ↔ fact ∈ found ∧ fact.name = name := by
  constructor
  · intro search
    exact ⟨List.mem_of_find?_eq_some search, by simpa using List.find?_some search⟩
  · rintro ⟨member, rfl⟩
    have present : (found.find? fun other => other.name == fact.name).isSome = true :=
      List.find?_isSome.mpr ⟨fact, member, beq_self_eq_true fact.name⟩
    obtain ⟨other, search⟩ := Option.isSome_iff_exists.mp present
    have name : other.name = fact.name := by simpa using List.find?_some search
    rw [search, List.inj_on_of_nodup_map distinct (List.mem_of_find?_eq_some search) member name]

theorem rising_candidates (base : Text) (listed : List ClassFact)
    (resources : List (Text × Text)) :
    (candidates base (ofClasses listed resources)).Pairwise
      fun a b => precedes a.name b.name = true := by
  apply List.Pairwise.filter
  exact List.pairwise_map.mp (rising_ofClasses listed resources)

/-- The chosen class is the preferred candidate, or else the one before all others. -/
theorem resolve_eq_some_iff {facts : Facts} {fact : ClassFact}
    (rising : (candidates base facts).Pairwise fun a b => precedes a.name b.name = true) :
    resolve base preferred facts = some fact ↔
      fact ∈ candidates base facts ∧
        (preferred = some fact.name ∨
          (∀ other ∈ candidates base facts, preferred ≠ some other.name) ∧
            ∀ other ∈ candidates base facts, other ≠ fact →
              precedes fact.name other.name = true) := by
  have distinct : ((candidates base facts).map ClassFact.name).Nodup :=
    NameSet.nodup_of_rising (List.pairwise_map.mpr rising)
  rw [resolve]
  cases search : preferred.bind fun name =>
      (candidates base facts).find? fun other => other.name == name with
  | some found =>
      obtain ⟨name, rfl, named⟩ := Option.bind_eq_some_iff.mp search
      obtain ⟨member, rfl⟩ := (find?_eq_some_iff_of_distinct distinct).mp named
      constructor
      · intro chosen
        obtain rfl := Option.some.inj chosen
        exact ⟨member, .inl rfl⟩
      · intro chosen
        obtain ⟨isCandidate, same | ⟨other, -⟩⟩ := chosen
        · -- No two candidates share the preferred name.
          have again := (find?_eq_some_iff_of_distinct distinct).mpr
            ⟨isCandidate, (Option.some.inj same).symm⟩
          rw [← named, again]
        · exact absurd rfl (other found member)
  | none =>
      have unnamed : ∀ other ∈ candidates base facts, preferred ≠ some other.name := by
        intro other member named
        have found := (find?_eq_some_iff_of_distinct distinct).mpr ⟨member, rfl⟩
        rw [named, Option.bind_some, found] at search
        cases search
      rw [head?_eq_some_iff_of_rising rising]
      constructor
      · intro chosen
        exact ⟨chosen.1, .inr ⟨unnamed, chosen.2⟩⟩
      · intro chosen
        obtain ⟨isCandidate, same | ⟨-, before⟩⟩ := chosen
        · exact absurd same (unnamed fact isCandidate)
        · exact ⟨isCandidate, before⟩

theorem resolve_eq_none_iff {facts : Facts} :
    resolve base preferred facts = none ↔ candidates base facts = [] := by
  rw [resolve]
  split
  next found search =>
    obtain ⟨name, -, named⟩ := Option.bind_eq_some_iff.mp search
    have member := List.mem_of_find?_eq_some named
    have occupied : candidates base facts ≠ [] := List.ne_nil_of_mem member
    simp [occupied]
  next => exact List.head?_eq_none_iff

/-- A class that is the first one listed of its name, and a candidate. -/
structure IsListedCandidate (base : Text) (listed : List ClassFact) (fact : ClassFact) : Prop where
  first : IsFirstListed listed fact
  candidate : IsCandidate base fact

/-- The entry class among the listed ones: the preferred candidate, or where no candidate is
preferred, the one whose name comes before the names of all others. -/
structure IsEntry (base : Text) (preferred : Option Text) (listed : List ClassFact)
    (fact : ClassFact) : Prop extends IsListedCandidate base listed fact where
  chosen : preferred = some fact.name ∨
    (∀ other, IsListedCandidate base listed other → preferred ≠ some other.name) ∧
      ∀ other, IsListedCandidate base listed other → other ≠ fact →
        BytesPrecede fact.name other.name

theorem mem_candidates_ofClasses {listed : List ClassFact} {resources : List (Text × Text)}
    {fact : ClassFact} :
    fact ∈ candidates base (ofClasses listed resources) ↔ IsListedCandidate base listed fact := by
  rw [mem_candidates, mem_ofClasses]
  exact ⟨fun both => ⟨both.1, both.2⟩, fun both => ⟨both.first, both.candidate⟩⟩

theorem resolve_ofClasses_eq_some_iff {listed : List ClassFact}
    {resources : List (Text × Text)} {fact : ClassFact} :
    resolve base preferred (ofClasses listed resources) = some fact ↔
      IsEntry base preferred listed fact := by
  rw [resolve_eq_some_iff (rising_candidates base listed resources)]
  simp only [mem_candidates_ofClasses, ← bytesPrecede_iff]
  exact ⟨fun both => ⟨both.1, both.2⟩, fun entry => ⟨entry.toIsListedCandidate, entry.chosen⟩⟩

/-- Where the names are distinct every candidate counts. -/
theorem isListedCandidate_iff_mem {listed : List ClassFact} {fact : ClassFact}
    (distinct : (listed.map ClassFact.name).Nodup) :
    IsListedCandidate base listed fact ↔ fact ∈ listed ∧ IsCandidate base fact := by
  rw [← isFirstListed_iff_mem distinct]
  exact ⟨fun both => ⟨both.first, both.candidate⟩, fun both => ⟨both.1, both.2⟩⟩

theorem resolve_ofClasses_perm {listed other : List ClassFact}
    (distinct : (listed.map ClassFact.name).Nodup) (same : other.Perm listed)
    (resources otherResources : List (Text × Text)) :
    resolve base preferred (ofClasses other otherResources) =
      resolve base preferred (ofClasses listed resources) := by
  have otherDistinct : (other.map ClassFact.name).Nodup :=
    (same.map ClassFact.name).nodup_iff.mpr distinct
  apply Option.ext
  intro fact
  rw [resolve_eq_some_iff (rising_candidates base other otherResources),
    resolve_eq_some_iff (rising_candidates base listed resources)]
  simp only [mem_candidates_ofClasses, isListedCandidate_iff_mem distinct,
    isListedCandidate_iff_mem otherDistinct, same.mem_iff]

/-- The entry class of a package is the entry class among the listed classes, there is none only
where no listed class is a candidate, and of the classes with one name only the first can be one.
Where the names are distinct all candidates count, and the order of the listing does not matter. -/
theorem resolve_ofClasses (base : Text) (preferred : Option Text) (listed : List ClassFact)
    (resources : List (Text × Text)) :
    (∀ fact, resolve base preferred (ofClasses listed resources) = some fact ↔
        IsEntry base preferred listed fact) ∧
      (resolve base preferred (ofClasses listed resources) = none ↔
        ∀ fact, ¬ IsListedCandidate base listed fact) ∧
      (∀ fact, fact ∈ candidates base (ofClasses listed resources) ↔
        IsListedCandidate base listed fact) ∧
      ((listed.map ClassFact.name).Nodup →
        (∀ fact, IsListedCandidate base listed fact ↔ fact ∈ listed ∧ IsCandidate base fact) ∧
          ∀ other otherResources, other.Perm listed →
            resolve base preferred (ofClasses other otherResources) =
              resolve base preferred (ofClasses listed resources)) := by
  refine ⟨fun fact => resolve_ofClasses_eq_some_iff, ?_, fun fact => mem_candidates_ofClasses, ?_⟩
  · rw [resolve_eq_none_iff, List.eq_nil_iff_forall_not_mem]
    simp only [mem_candidates_ofClasses]
  · intro distinct
    constructor
    · intro fact
      exact isListedCandidate_iff_mem distinct
    · intro other otherResources same
      exact resolve_ofClasses_perm distinct same resources otherResources

/-- A class that extends the base class by its simple name. -/
def importingClass : ClassFact where
  name := "z.Main"
  source := ""
  superclass := some "Application"
  imports := [applicationBase]

/-- The preferred class extends nothing, and the class of the smallest name lacks the import. -/
def shellClasses : List ClassFact :=
  [{ name := "é.Base", source := "", superclass := some applicationBase },
    { name := "shell.Loader", source := "" },
    importingClass,
    { name := "a.Plain", source := "", superclass := some "Application" }]

/-- The first class of the name hides the second. -/
def hiddenClasses : List ClassFact :=
  [{ name := "a.Main", source := "" },
    { name := "a.Main", source := "", superclass := some applicationBase }]

theorem resolve_ofClasses_shell :
    (shellClasses.map ClassFact.name).Nodup ∧
      IsEntry applicationBase (some "shell.Loader") shellClasses importingClass ∧
      resolve applicationBase (some "shell.Loader") (ofClasses shellClasses.reverse []) =
        some importingClass ∧
      ∀ fact, ¬ IsListedCandidate applicationBase hiddenClasses fact := by
  have distinct : (shellClasses.map ClassFact.name).Nodup := by decide
  have resolved : resolve applicationBase (some "shell.Loader") (ofClasses shellClasses []) =
      some importingClass := by
    decide +kernel
  have hidden : resolve applicationBase none (ofClasses hiddenClasses []) = none := by
    decide +kernel
  obtain ⟨entry, -, -, unordered⟩ :=
    resolve_ofClasses applicationBase (some "shell.Loader") shellClasses []
  refine ⟨distinct, (entry importingClass).mp resolved, ?_, ?_⟩
  · rw [(unordered distinct).2 _ [] (List.reverse_perm shellClasses), resolved]
  · exact (resolve_ofClasses applicationBase none hiddenClasses []).2.1.mp hidden

end Unpacking.EntryClass
