import Unpacking.Proofs.Analysis.Consistency
import Unpacking.Proofs.Unpacker.Synthesis

/-!
Detection does not depend on synthesis. The synthesis of an unpacker runs between the detectors and
may fail, and it adds to the reflective packages of the verdict they share. Two analyses of the same
facts that go on in the same cases still agree on everything else, and on the reflective packages up
to the package whose reflection a synthesis has removed.
-/

namespace Unpacking

/-! ### Packages that are added to a detection -/

namespace Detection

variable {scope : Scope} {package : Text}

theorem IsConsistent.mem_absorb {detection found : Detection}
    (consistent : found.IsConsistent scope) :
    package ∈ (detection.absorb found).packages.toList ↔
      package ∈ detection.packages.toList ∨ package ∈ found.packages.toList := by
  rw [Detection.absorb]
  split
  · rw [NameSet.mem_insertAll, or_comm]
  · rename_i unused
    have nothing : found.packages.toList = [] := by
      by_contra some
      exact unused (consistent.used.mpr some)
    simp [nothing]

end Detection

namespace Analysis

/-- What a report says about packing and class loading is what another report says. -/
structure Report.AgreesWith (report other : Report) : Prop where
  missing : report.missing = other.missing
  /-- The package of the app and the package of its application class. -/
  scope : report.verdict.scope = other.verdict.scope
  packer : report.verdict.packer = other.verdict.packer
  /-- The flags and the packages of class loading. -/
  loading : report.verdict.loading = other.verdict.loading

/-- A report owes a package to its unpacker: the package is the one of the entry class, and the
unpacker had reflection to remove. -/
def Report.Owes (report : Report) (entry : Option ClassFact) (package : Text) : Prop :=
  ∃ fact unpacker, entry = some fact ∧ fact.package = package ∧
    report.unpacker = some unpacker ∧ 0 < unpacker.removal.hits

/-! ### One analysis -/

namespace Subject

variable (subject : Subject)

theorem mem_removedReflection {unpacker : Unpacker} {package : Text}
    (member : package ∈ (subject.removedReflection unpacker).packages.toList) :
    ∃ fact, subject.entry = some fact ∧ fact.package = package ∧ 0 < unpacker.removal.hits := by
  rw [removedReflection] at member
  split at member
  · rename_i fact isEntry
    split at member
    · rename_i hits
      have only : package = fact.package ∨ package ∈ NameSet.empty.toList :=
        NameSet.mem_insert.mp member
      rcases only with same | inEmpty
      · exact ⟨fact, isEntry, same.symm, hits⟩
      · simp [NameSet.empty] at inEmpty
    · simp [NameSet.empty] at member
  · simp [NameSet.empty] at member

theorem package_mem_removedReflection {unpacker : Unpacker} {fact : ClassFact}
    (isEntry : subject.entry = some fact) (hits : 0 < unpacker.removal.hits) :
    fact.package ∈ (subject.removedReflection unpacker).packages.toList := by
  have recorded : fact.package ∈ (NameSet.empty.insert fact.package).toList :=
    NameSet.mem_insert.mpr (.inl rfl)
  unfold removedReflection
  rw [isEntry]
  simp only [if_pos hits]
  exact recorded

theorem mem_reflectivePackages_fullVerdict {removed : Detection} {package : Text}
    (consistent : removed.IsConsistent subject.scope) :
    package ∈ (subject.fullVerdict removed).reflectivePackages.toList ↔
      package ∈ removed.packages.toList ∨ package ∈ subject.reflection.packages.toList := by
  have found : subject.reflection.IsConsistent subject.scope := Detection.isConsistent_detect _ _
  have absorbed : (subject.fullVerdict removed).reflection =
      (subject.loadingVerdict.reflection.absorb removed).absorb subject.reflection := by
    rw [fullVerdict, Verdict.reflection_addReflection, Verdict.reflection_addReflection]
  have blank : subject.loadingVerdict.reflection.packages.toList = [] := by
    have kept := (Verdict.addLoading_frame subject.blankVerdict subject.loading).2
    exact congrArg (fun detection => detection.packages.toList) kept
  have packages : (subject.fullVerdict removed).reflectivePackages =
      ((subject.loadingVerdict.reflection.absorb removed).absorb subject.reflection).packages :=
    congrArg Detection.packages absorbed
  rw [packages, found.mem_absorb, consistent.mem_absorb, blank]
  simp

end Subject

/-- The report of an analysis that was carried through, in terms of what it started from. -/
structure Carried (subject : Subject) (report : Report) : Prop where
  missing : report.missing = subject.missing
  scope : report.verdict.scope = subject.scope
  packer : report.verdict.packer = subject.packer
  loading : report.verdict.loading = subject.loadingVerdict.loading
  /-- The detector finds every reflective package, up to one that is owed to the unpacker. -/
  reflective : ∀ package, package ∈ report.verdict.reflectivePackages.toList →
    package ∈ subject.reflection.packages.toList ∨ report.Owes subject.entry package
  detected : ∀ package ∈ subject.reflection.packages.toList,
    package ∈ report.verdict.reflectivePackages.toList

theorem carried_of_synthesis {toolkit : Toolkit} {settings : Settings} {subject : Subject}
    {made : Synthesis} (synthesized : synthesis toolkit settings subject = .ok made) :
    Carried subject {
      verdict := subject.fullVerdict made.removed
      missing := subject.missing
      unpacker := made.unpacker
      unpackerError := made.error } := by
  obtain ⟨loading, packer⟩ := subject.loading_fullVerdict made.removed
  have members (package : Text) :
      package ∈ (subject.fullVerdict made.removed).reflectivePackages.toList ↔
        package ∈ made.removed.packages.toList ∨ package ∈ subject.reflection.packages.toList :=
    subject.mem_reflectivePackages_fullVerdict (isConsistent_removed synthesized)
  refine ⟨rfl, ?_, packer, loading, ?_, fun package found => (members package).mpr (.inr found)⟩
  · rw [Subject.fullVerdict, (Verdict.addReflection_frame _ _).1,
      (Verdict.addReflection_frame _ _).1, Subject.scope_loadingVerdict]
  · intro package listed
    rcases (members package).mp listed with removed | found
    · right
      rcases synthesis_cases synthesized with
        ⟨_, rfl⟩ | ⟨_, unpacker, isMade, _, same⟩ | ⟨_, _, _, same⟩
      · simp [NameSet.empty] at removed
      · rw [same] at removed
        obtain ⟨fact, isEntry, inPackage, hits⟩ := subject.mem_removedReflection removed
        exact ⟨fact, unpacker, isEntry, inPackage, isMade, hits⟩
      · simp [same, NameSet.empty] at removed
    · exact .inl found

/-- A report says the same for all settings that go on in the same cases, or is carried through. -/
theorem runOn_outcome {toolkit : Toolkit} {settings : Settings} {subject : Subject}
    {report : Report} (analysed : (runOn toolkit settings subject).result = .ok report) :
    (¬GoesOn settings subject.missing ∧
        report = { verdict := subject.blankVerdict, missing := subject.missing }) ∨
      (GoesOn settings subject.missing ∧ Carried subject report) := by
  rcases runOn_cases analysed with ended | ⟨goesOn, made, synthesized, rfl⟩
  · exact .inl ended
  · exact .inr ⟨goesOn, carried_of_synthesis synthesized⟩

/-! ### Two analyses -/

theorem Carried.agreesWith {subject : Subject} {report other : Report}
    (first : Carried subject report) (second : Carried subject other) :
    report.AgreesWith other where
  missing := first.missing.trans second.missing.symm
  scope := first.scope.trans second.scope.symm
  packer := first.packer.trans second.packer.symm
  loading := first.loading.trans second.loading.symm

/-- A reflective package that only one of two reports lists is owed to the unpacker of that one. -/
theorem Carried.owes {subject : Subject} {report other : Report} {package : Text}
    (first : Carried subject report) (second : Carried subject other)
    (listed : package ∈ report.verdict.reflectivePackages.toList)
    (unlisted : package ∉ other.verdict.reflectivePackages.toList) :
    report.Owes subject.entry package := by
  rcases first.reflective package listed with found | owed
  · exact absurd (second.detected package found) unlisted
  · exact owed

theorem result_of_run {toolkit : Toolkit} {settings : Settings} {cancelled : Bool} {path : Text}
    {facts : Facts} {report : Report}
    (analysed : (run toolkit settings cancelled path (.ok facts)).result = .ok report) :
    (runOn toolkit settings (.of path facts)).result = .ok report := by
  cases cancelled with
  | true => simp [run] at analysed
  | false => exact analysed

/-- Two analyses of the same facts whose settings agree on whether to go on with an app that is not
packed agree on all that is detected. Their reflective packages differ at most by the package of the
entry class, which is listed in addition only by an analysis whose unpacker had reflection to
remove. -/
theorem detection_of_two_runs {toolkit otherToolkit : Toolkit} {settings others : Settings}
    {cancelled otherCancelled : Bool} {path : Text} {facts : Facts} {report other : Report}
    (agree : settings.continueUnpacked = others.continueUnpacked)
    (analysed : (run toolkit settings cancelled path (.ok facts)).result = .ok report)
    (otherAnalysed : (run otherToolkit others otherCancelled path (.ok facts)).result =
      .ok other) :
    report.AgreesWith other ∧
      (∀ package ∈ report.verdict.reflectivePackages.toList,
        package ∉ other.verdict.reflectivePackages.toList →
          report.Owes (Subject.of path facts).entry package) ∧
      (∀ package ∈ other.verdict.reflectivePackages.toList,
        package ∉ report.verdict.reflectivePackages.toList →
          other.Owes (Subject.of path facts).entry package) := by
  have sameCases : GoesOn settings (Subject.of path facts).missing ↔
      GoesOn others (Subject.of path facts).missing := by
    rw [GoesOn, GoesOn, agree]
  rcases runOn_outcome (result_of_run analysed) with ⟨ended, rfl⟩ | ⟨goesOn, first⟩
  · rcases runOn_outcome (result_of_run otherAnalysed) with ⟨_, rfl⟩ | ⟨otherGoesOn, _⟩
    · exact ⟨⟨rfl, rfl, rfl, rfl⟩, fun _ listed unlisted => absurd listed unlisted,
        fun _ listed unlisted => absurd listed unlisted⟩
    · exact absurd (sameCases.mpr otherGoesOn) ended
  · rcases runOn_outcome (result_of_run otherAnalysed) with ⟨otherEnded, _⟩ | ⟨_, second⟩
    · exact absurd (sameCases.mp goesOn) otherEnded
    · exact ⟨first.agreesWith second, fun _ => first.owes second, fun _ => second.owes first⟩

/-- An analysis whose unpacker has reflection to remove lists the package of the entry class. -/
theorem exists_report_of_hits {toolkit : Toolkit} {settings : Settings} {path : Text}
    {facts : Facts} {entry : ClassFact} {unpacker : Unpacker} {log : Log}
    (goesOn : settings.continueUnpacked = true) (asked : settings.synthesize = true)
    (isEntry : (Subject.of path facts).entry = some entry)
    (made : Unpacker.synthesize toolkit settings.synthesis path facts (some entry) =
      .ok (unpacker, log))
    (hits : 0 < unpacker.removal.hits) :
    ∃ report, (run toolkit settings false path (.ok facts)).result = .ok report ∧
      entry.package ∈ report.verdict.reflectivePackages.toList := by
  let subject := Subject.of path facts
  have synthesized : synthesis toolkit settings subject =
      .ok { unpacker := some unpacker, removed := subject.removedReflection unpacker, log } := by
    have same : Unpacker.synthesize toolkit settings.synthesis subject.path subject.facts
        subject.entry = .ok (unpacker, log) := isEntry ▸ made
    simp [synthesis, asked, same]
  refine ⟨{
    verdict := subject.fullVerdict (subject.removedReflection unpacker)
    missing := subject.missing
    unpacker := some unpacker }, ?_, ?_⟩
  · change (runOn toolkit settings subject).result = _
    simp only [runOn, goesOn, synthesized, Bool.not_true, Bool.and_false, Bool.false_eq_true,
      if_false]
    rfl
  · apply (subject.mem_reflectivePackages_fullVerdict
      (subject.isConsistent_removedReflection unpacker)).mpr
    exact .inl (subject.package_mem_removedReflection isEntry hits)

/-- The package of a class whose unpacker is named for a term of reflection is listed by the
analysis that makes the unpacker, and not by the one that makes none. -/
theorem detection_of_two_runs_with_hits :
    let entry : ClassFact := {
      name := "a.A"
      source := "class A \x7b\x7d"
      superclass := some "android.app.Application".toList }
    let facts := Facts.ofClasses [entry] []
    ∃ report other,
      (run {} { synthesis := { classPrefix := "invoke" } } false ".." (.ok facts)).result =
        .ok report ∧
      (run {} { synthesize := false } false ".." (.ok facts)).result = .ok other ∧
      report.AgreesWith other ∧ other.verdict.reflectivePackages.toList = [] ∧
      report.Owes (Subject.of ".." facts).entry "a" := by
  intro entry facts
  have isEntry : (Subject.of ".." facts).entry = some entry := by decide +kernel
  have alone : Dependencies.candidates entry facts = [] := by decide +kernel
  have collected : Dependencies.collect entry facts = [entry] := by
    rw [Dependencies.collect_eq_cons, alone, List.filter_nil, Dependencies.collectFrom]
  have counted : Unpacker.hits? {} { classPrefix := "invoke" } ".." entry [entry] = some 1 := by
    decide +kernel
  have detected : (run {} { synthesize := false } false ".." (.ok facts)).result.toOption.map
      (fun report => report.verdict.reflectivePackages.toList) = some [] := by decide +kernel
  have package : entry.package = ("a" : Text) := by decide +kernel
  rw [← collected] at counted
  obtain ⟨unpacker, log, made, hits⟩ := Unpacker.exists_synthesize_of_hits? counted
  obtain ⟨report, analysed, listed⟩ :=
    @exists_report_of_hits {} { synthesis := { classPrefix := "invoke" } } _ _ _ _ _ rfl rfl isEntry
      made (by omega)
  obtain ⟨other, otherAnalysed, unlisted⟩ := exists_report_of_map detected
  obtain ⟨agrees, owes, -⟩ := detection_of_two_runs (by rfl) analysed otherAnalysed
  refine ⟨report, other, analysed, otherAnalysed, agrees, unlisted, ?_⟩
  rw [package] at listed
  exact owes _ listed (by simp [unlisted])

end Analysis

end Unpacking
