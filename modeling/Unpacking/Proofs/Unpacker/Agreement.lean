import Unpacking.Analysis.Detection
import Unpacking.Proofs.Renaming.Inert
import Unpacking.Proofs.Stage.Inert
import Unpacking.Proofs.Substitution.Inert
import Unpacking.Proofs.Unpacker.Synthesis

/-!
The removal of reflection agrees with its detection. No stage of a synthesis makes a term of
reflection that the sources did not hold, so where the removal has something to do, the detector
has found the package of the entry class before.
-/

namespace Unpacking

open Text Reflection

/-! ### Drafts -/

/-- A draft whose segments are inert. -/
def Draft.IsInert (draft : Draft) : Prop :=
  ∀ segment ∈ draft, Reflection.IsInert none segment.text

namespace Draft

theorem IsInert.mapText {draft : Draft} {change : Text → Text} (inert : draft.IsInert)
    (keeps : ∀ text, Reflection.IsInert none text → Reflection.IsInert none (change text)) :
    (draft.mapText change).IsInert := by
  intro segment member
  obtain ⟨old, inside, rfl⟩ := List.mem_map.mp member
  exact keeps old.text (inert old inside)

theorem IsInert.merged {draft : Draft} (inert : draft.IsInert) :
    Reflection.IsInert none draft.merged := by
  induction draft with
  | nil => exact isInert_nil
  | cons segment rest inductionHypothesis =>
      obtain ⟨here, others⟩ := List.forall_mem_cons.mp inert
      have newline : isWord '\n' = false := by decide
      have closed : Reflection.IsInert none
          (trimEnd segment.text ++ '\n' :: '\n' :: Draft.merged rest) :=
        (isInert_append_cons newline).mpr
          ⟨here.trimEnd, isInert_cons_of_neg newline (inductionHypothesis others)⟩
      simpa [Draft.merged] using closed

end Draft

namespace Unpacker

/-! ### Stages -/

theorem isInert_renamedDraft {toolkit : Toolkit} {classes : List ClassFact} {draft : Draft}
    (ran : renamedDraft toolkit classes = .ok draft)
    (inert : ∀ fact ∈ classes, Reflection.IsInert none fact.source) : draft.IsInert := by
  obtain ⟨renamer, renamed, -, done, rfl⟩ := renamedDraft_eq_ok ran
  intro segment member
  obtain ⟨both, paired, rfl⟩ := List.mem_map.mp member
  have revises := Renaming.revises_renameAll done
  rw [List.forall₂_map_left_iff] at revises
  exact (List.forall₂_zip revises paired).inert none (inert both.1 (List.of_mem_zip paired).1)

theorem isInert_freeDraft {toolkit : Toolkit} {draft freed : Draft} {standIn : Text} {log : Log}
    (ran : freeDraft toolkit standIn draft = .ok (freed, log)) (isStandIn : IsStandIn standIn)
    (inert : draft.IsInert) : freed.IsInert := by
  cases draft with
  | nil =>
      obtain ⟨rfl, -⟩ := Prod.mk.inj (Except.ok.inj ran)
      exact inert
  | cons segment rest =>
      obtain ⟨here, others⟩ := List.forall_mem_cons.mp inert
      rw [freeDraft] at ran
      split at ran
      · simp at ran
      · obtain ⟨rfl, -⟩ := Prod.mk.inj (Except.ok.inj ran)
        refine List.forall_mem_cons.mpr ⟨?_, others⟩
        exact Stage.isInert_entryPoint isStandIn
          (Stage.isInert_commentSuperclassCalls (Stage.isInert_stripBaseClass here))

theorem isInert_makeStatic {text : Text} (inert : Reflection.IsInert none text) :
    Reflection.IsInert none (makeStatic text) :=
  Stage.isInert_removeSelfReferences (Stage.isInert_makeFieldsStatic
    (Stage.isInert_makeMethodsStatic (Stage.isInert_commentPackageLines inert)))

theorem isInert_substitute (settings : SynthesisSettings) {path : Text} {draft : Draft}
    (absent : ∀ term ∈ vocabulary, ¬term <:+: path) (inert : draft.IsInert) :
    (substitute settings path draft).draft.IsInert := by
  intro segment member
  obtain ⟨⟨old, progress⟩, inside, rfl⟩ := List.mem_map.mp member
  obtain ⟨same, listed, paired⟩ := List.mem_map.mp inside
  obtain ⟨rfl, rfl⟩ := Prod.mk.inj paired
  exact Substitution.isInert_apply settings.platformNamespaces absent same.imports
    (inert same listed)

/-- The stages make no term of reflection, if neither the name of the generated class nor the
stand-in for the context does. -/
theorem isInert_prepare {toolkit : Toolkit} {settings : SynthesisSettings} {path : Text}
    {entry : ClassFact} {classes : List ClassFact} {prepared : Prepared}
    (strange : IsStrange (classNameFor settings path)) (standIn : IsStandIn settings.contextStandIn)
    (absent : ∀ term ∈ vocabulary, ¬term <:+: path)
    (ran : prepare toolkit settings path entry classes = .ok prepared)
    (inert : ∀ fact ∈ classes, Reflection.IsInert none fact.source) : prepared.draft.IsInert := by
  obtain ⟨freed, log, done, draft, -⟩ := prepare_eq_ok ran
  obtain ⟨renamed, named, cleared⟩ := freedDraft_eq_ok done
  have inRenamed := (isInert_renamedDraft named inert).mapText fun text =>
    Stage.isInert_renameClass strange entry.simpleName
  have inFreed := isInert_freeDraft cleared standIn inRenamed
  have substituted := isInert_substitute settings absent
    (inFreed.mapText fun text => isInert_makeStatic)
  rw [draft]
  exact substituted.mapText fun text =>
    Stage.isInert_commentPlatformImports settings.platformNamespaces

theorem isStrange_classNameFor (path : Text) : IsStrange (classNameFor {} path) := by
  have mapped (c : Char) : isWord (nameCharacter c) = true := by
    rw [nameCharacter]
    split
    · rename_i alphanumeric
      exact isWord_of_isAlphanum alphanumeric
    · decide
  refine .of_mem (fun c member => ?_) ?_ Renaming.underscore_not_mem_term
  · rcases List.mem_append.mp member with inPrefix | inStem
    · have all : ("Unpacker_" : Text).all isWord = true := by decide
      exact List.all_eq_true.mp all c inPrefix
    · obtain ⟨d, -, rfl⟩ := List.mem_map.mp inStem
      exact mapped d
  · exact List.mem_append_left _ (by decide)

end Unpacker

/-! ### Detection -/

theorem Detection.mem_packages_foldl {scope : Scope} {package : Text}
    (hits : List (ClassFact × Text)) (start : Detection) :
    package ∈
        (hits.foldl (fun found hit => found.record scope hit.1.package) start).packages.toList ↔
      package ∈ start.packages.toList ∨ ∃ hit ∈ hits, hit.1.package = package := by
  induction hits generalizing start with
  | nil => simp
  | cons hit hits inductionHypothesis =>
      have recorded : package ∈ (start.record scope hit.1.package).packages.toList ↔
          package = hit.1.package ∨ package ∈ start.packages.toList := NameSet.mem_insert
      rw [List.foldl_cons, inductionHypothesis, recorded, List.exists_mem_cons_iff, or_assoc,
        or_left_comm, eq_comm]

/-- A detector lists the packages of the classes whose sources hold a keyword. -/
theorem Detector.mem_packages_detect {detector : Detector} {scope : Scope}
    {classes : List ClassFact} {package : Text} :
    package ∈ (detector.detect scope classes).packages.toList ↔
      ∃ fact ∈ classes, fact.package = package ∧
        ∃ keyword ∈ detector.keywords, keyword <:+: fact.source := by
  have empty : package ∉ ({} : Detection).packages.toList := by simp [NameSet.empty]
  rw [detect, Detection.mem_packages_foldl]
  simp only [empty, false_or, hits, List.mem_flatMap, List.mem_map, List.mem_filter,
    Text.occursIn_iff_infix]
  constructor
  · rintro ⟨hit, ⟨fact, listed, keyword, ⟨known, inside⟩, rfl⟩, rfl⟩
    exact ⟨fact, listed, rfl, keyword, known, inside⟩
  · rintro ⟨fact, listed, rfl, keyword, known, inside⟩
    exact ⟨(fact, keyword), ⟨fact, listed, keyword, ⟨known, inside⟩, rfl⟩, rfl⟩

namespace Unpacker

/-- If a removal had something to do, then a class of the package of the entry class holds a term of
reflection in its source, and the detector of reflection lists the package. -/
theorem reflective_of_hits {toolkit : Toolkit} {facts : Facts} {entry : ClassFact} {path : Text}
    {unpacker : Unpacker} {log : Log} (listed : entry ∈ facts.classes)
    (absent : ∀ keyword ∈ vocabulary, ¬keyword <:+: path)
    (made : synthesize toolkit {} path facts (some entry) = .ok (unpacker, log))
    (hits : 0 < unpacker.removal.hits) :
    (∃ fact ∈ facts.classes, fact.package = entry.package ∧
        ∃ keyword ∈ vocabulary, keyword <:+: fact.source) ∧
      ∀ scope,
        entry.package ∈ (Detector.reflection.detect scope facts.classes).packages.toList := by
  have reflective : ∃ fact ∈ facts.classes, fact.package = entry.package ∧
      ∃ keyword ∈ vocabulary, keyword <:+: fact.source := by
    -- Without a term in the sources every stage leaves the draft inert, and nothing is removed.
    by_contra unreflective
    push Not at unreflective
    have inert : ∀ fact ∈ Dependencies.collect entry facts,
        Reflection.IsInert none fact.source := by
      intro fact collected
      obtain ⟨inFacts, package⟩ := Dependencies.mem_of_mem_collect listed collected
      exact isInert_of_absent (unreflective fact inFacts package) _
    have standIn : IsStandIn ({} : SynthesisSettings).contextStandIn := by decide +kernel
    obtain ⟨prepared, ready, cleaned, -⟩ := synthesize_eq_ok made
    have final := isInert_prepare (isStrange_classNameFor path) standIn absent ready inert
    obtain ⟨removal, removed, unhit⟩ := final.merged.remove
    have same := remove_of_compileAndRemove cleaned
    rw [removed, Except.ok.injEq] at same
    rw [← same, unhit] at hits
    exact Nat.lt_irrefl 0 hits
  exact ⟨reflective, fun scope => Detector.mem_packages_detect.mpr reflective⟩

/-- A class that calls another class of its package, which uses reflection. -/
theorem reflective_of_hits_in_dependency :
    let entry : ClassFact :=
      { name := "a.A", source := "class A \x7b void m() \x7b B.call(); \x7d \x7d" }
    let other : ClassFact :=
      { name := "a.B", source := "class B \x7b void call() \x7b x.invoke(y); \x7d \x7d" }
    let facts := Facts.ofClasses [entry, other] []
    ∃ unpacker log, synthesize {} {} "app" facts (some entry) = .ok (unpacker, log) ∧
      unpacker.removal.hits = 1 ∧
      ∀ scope, ("a" : Text) ∈ (Detector.reflection.detect scope facts.classes).packages.toList := by
  intro entry other facts
  have candidates : Dependencies.candidates entry facts = [other] := by decide +kernel
  have referred : [other].filter entry.refersTo = [other] := by decide +kernel
  have collected : Dependencies.collect entry facts = [entry, other] := by
    rw [Dependencies.collect_eq_cons, candidates, referred, Dependencies.collectFrom_singleton]
  have counted : hits? {} {} "app" entry [entry, other] = some 1 := by decide +kernel
  rw [← collected] at counted
  obtain ⟨unpacker, log, made, hits⟩ := exists_synthesize_of_hits? counted
  refine ⟨unpacker, log, made, hits, fun scope => ?_⟩
  exact (reflective_of_hits (by decide +kernel) (by decide +kernel) made (by omega)).2 scope

end Unpacker

end Unpacking
