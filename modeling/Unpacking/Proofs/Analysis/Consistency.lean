import Unpacking.Analysis.Run
import Unpacking.Proofs.Text.NameSet
import Unpacking.Proofs.Text.Reading

/-!
Reports agree with themselves. The flags of a verdict are raised by two detectors and by the removal
of reflection, and an analysis may end before any of them has run. In every case the flags say what
the packages beside them say, and the packer follows from the missing classes and the packages that
load classes.
-/

namespace Unpacking

open Text

/-! ### The packages of an app -/

/-- A package belongs to an app when it is a namespace of the app or continues one with a dot. -/
def Scope.Owns (scope : Scope) (package : Text) : Prop :=
  ∃ space, (space = scope.packageName ∨ scope.applicationPackage = some space) ∧ space ≠ [] ∧
    (package = space ∨ space ++ ['.'] <+: package)

theorem Scope.isWithin_iff {package space : Text} :
    isWithin package space = true ↔
      space ≠ [] ∧ (package = space ∨ space ++ ['.'] <+: package) := by
  rw [isWithin, Bool.and_eq_true]
  refine and_congr (by simp) ?_
  cases found : after? space package with
  | none =>
      simp only [Bool.false_eq_true, false_iff, not_or]
      constructor
      · rintro rfl
        simpa [found] using after?_append package []
      · rintro ⟨rest, rfl⟩
        simp [List.append_assoc, after?_append] at found
  | some rest =>
      obtain rfl := after?_eq_some found
      cases rest with
      | nil => simp
      | cons c rest => simp [List.prefix_append_right_inj, eq_comm (a := c)]

theorem Scope.contains_iff {scope : Scope} {package : Text} :
    scope.contains package = true ↔ scope.Owns package := by
  simp only [contains, Owns, Bool.or_eq_true, Option.any_eq_true, isWithin_iff]
  constructor
  · rintro (within | ⟨space, given, within⟩)
    · exact ⟨_, .inl rfl, within⟩
    · exact ⟨space, .inr given, within⟩
  · rintro ⟨space, rfl | given, within⟩
    · exact .inl within
    · exact .inr ⟨space, given, within⟩

/-! ### Detections -/

namespace Detection

/-- The flags of a detection say that there are packages, and that one of them belongs to the
app. -/
structure IsConsistent (scope : Scope) (detection : Detection) : Prop where
  used : detection.used = true ↔ detection.packages.toList ≠ []
  inApp : detection.inApp = true ↔ ∃ package ∈ detection.packages.toList, scope.Owns package

variable {scope : Scope}

theorem isConsistent_empty : IsConsistent scope {} := by
  constructor <;> simp [NameSet.empty]

/-- One hit more keeps the flags in step with the packages. -/
theorem IsConsistent.record {detection : Detection} (consistent : IsConsistent scope detection)
    (package : Text) : IsConsistent scope (detection.record scope package) := by
  constructor
  · have present : package ∈ (detection.packages.insert package).toList :=
      NameSet.mem_insert.mpr (.inl rfl)
    exact iff_of_true rfl (List.ne_nil_of_mem present)
  · simp only [Detection.record, Bool.or_eq_true, consistent.inApp, Scope.contains_iff,
      NameSet.mem_insert, exists_eq_or_imp, or_comm]

theorem isConsistent_detect (detector : Detector) (classes : List ClassFact) :
    IsConsistent scope (detector.detect scope classes) :=
  List.foldlRecOn _ _ isConsistent_empty fun _ consistent hit _ =>
    consistent.record hit.1.package

/-- A detection with the findings of another one added, if that one has any. -/
def absorb (detection found : Detection) : Detection :=
  if found.used then
    { used := true
      inApp := detection.inApp || found.inApp
      packages := detection.packages.insertAll found.packages.toList }
  else detection

theorem IsConsistent.absorb {detection found : Detection}
    (consistent : IsConsistent scope detection) (foundConsistent : IsConsistent scope found) :
    IsConsistent scope (detection.absorb found) := by
  rw [Detection.absorb]
  split
  · rename_i used
    obtain ⟨package, member⟩ := List.exists_mem_of_ne_nil _ (foundConsistent.used.mp used)
    constructor
    · exact iff_of_true rfl (List.ne_nil_of_mem (NameSet.mem_insertAll.mpr (.inl member)))
    · simp only [Bool.or_eq_true, consistent.inApp, foundConsistent.inApp, NameSet.mem_insertAll,
        or_and_right, exists_or, or_comm]
  · exact consistent

theorem used_absorb (detection found : Detection) :
    (detection.absorb found).used = (detection.used || found.used) := by
  rw [absorb]
  split
  · rename_i used
    simp [used]
  · rename_i unused
    simp [unused]

end Detection

/-! ### Verdicts -/

namespace Verdict

/-- The namespaces that a verdict names. -/
def scope (verdict : Verdict) : Scope :=
  { packageName := verdict.packageName, applicationPackage := verdict.applicationPackage }

/-- What a verdict says about class loading. -/
def loading (verdict : Verdict) : Detection :=
  { used := verdict.usesLoading
    inApp := verdict.loadingInApp
    packages := verdict.loadingPackages }

/-- What a verdict says about reflection. -/
def reflection (verdict : Verdict) : Detection :=
  { used := verdict.usesReflection
    inApp := verdict.reflectionInApp
    packages := verdict.reflectivePackages }

theorem loading_addLoading (verdict : Verdict) (found : Detection) :
    (verdict.addLoading found).loading = verdict.loading.absorb found := by
  rw [addLoading, Detection.absorb]
  split <;> rfl

theorem reflection_addReflection (verdict : Verdict) (found : Detection) :
    (verdict.addReflection found).reflection = verdict.reflection.absorb found := by
  rw [addReflection, Detection.absorb]
  split <;> rfl

/-- Class loading leaves the namespaces and the reflection of a verdict as they are. -/
theorem addLoading_frame (verdict : Verdict) (found : Detection) :
    (verdict.addLoading found).scope = verdict.scope ∧
      (verdict.addLoading found).reflection = verdict.reflection := by
  rw [addLoading]
  split <;> exact ⟨rfl, rfl⟩

/-- Reflection leaves the namespaces, the class loading and the packer of a verdict as they are. -/
theorem addReflection_frame (verdict : Verdict) (found : Detection) :
    (verdict.addReflection found).scope = verdict.scope ∧
      (verdict.addReflection found).loading = verdict.loading ∧
      (verdict.addReflection found).packer = verdict.packer := by
  rw [addReflection]
  split <;> exact ⟨rfl, rfl, rfl⟩

/-- The flags of a verdict agree with its packages. -/
structure IsConsistent (verdict : Verdict) : Prop where
  loading : verdict.loading.IsConsistent verdict.scope
  reflection : verdict.reflection.IsConsistent verdict.scope

theorem IsConsistent.addLoading {verdict : Verdict} {found : Detection}
    (consistent : verdict.IsConsistent) (foundConsistent : found.IsConsistent verdict.scope) :
    (verdict.addLoading found).IsConsistent := by
  obtain ⟨scope, reflection⟩ := addLoading_frame verdict found
  constructor
  · rw [scope, loading_addLoading]
    exact consistent.loading.absorb foundConsistent
  · rw [scope, reflection]
    exact consistent.reflection

theorem IsConsistent.addReflection {verdict : Verdict} {found : Detection}
    (consistent : verdict.IsConsistent) (foundConsistent : found.IsConsistent verdict.scope) :
    (verdict.addReflection found).IsConsistent := by
  obtain ⟨scope, loading, _⟩ := addReflection_frame verdict found
  constructor
  · rw [scope, loading]
    exact consistent.loading
  · rw [scope, reflection_addReflection]
    exact consistent.reflection.absorb foundConsistent

end Verdict

/-- The packer that some missing classes and some packages that load classes stand for. -/
structure Packer.Fits (packer : Packer) (missing loadingPackages : NameSet) : Prop where
  unpacked : packer = .unpacked ↔ missing.toList = []
  managed : packer = .managed ↔ missing.toList ≠ [] ∧ loadingPackages.toList ≠ []
  native : packer = .native ↔ missing.toList ≠ [] ∧ loadingPackages.toList = []

/-! ### Analyses -/

namespace Analysis

namespace Subject

variable (subject : Subject)

theorem isConsistent_blankVerdict : subject.blankVerdict.IsConsistent :=
  ⟨Detection.isConsistent_empty, Detection.isConsistent_empty⟩

theorem isConsistent_removedReflection (unpacker : Unpacker) :
    (subject.removedReflection unpacker).IsConsistent subject.scope := by
  rw [removedReflection]
  split
  · split
    · exact Detection.isConsistent_empty.record _
    · exact Detection.isConsistent_empty
  · exact Detection.isConsistent_empty

theorem scope_loadingVerdict : subject.loadingVerdict.scope = subject.scope :=
  (Verdict.addLoading_frame subject.blankVerdict subject.loading).1

theorem isConsistent_loadingVerdict : subject.loadingVerdict.IsConsistent := by
  have added : (subject.blankVerdict.addLoading subject.loading).IsConsistent :=
    subject.isConsistent_blankVerdict.addLoading (Detection.isConsistent_detect _ _)
  exact ⟨added.loading, added.reflection⟩

/-- A verdict lists packages that load classes where the detector found some. -/
theorem loadingPackages_eq_nil_iff :
    subject.loadingVerdict.loadingPackages.toList = [] ↔
      subject.loading.packages.toList = [] := by
  have found : subject.loading.IsConsistent subject.scope := Detection.isConsistent_detect _ _
  have absorbed := Verdict.loading_addLoading subject.blankVerdict subject.loading
  have same : subject.loadingVerdict.usesLoading = subject.loading.used :=
    (congrArg Detection.used absorbed).trans (Detection.used_absorb _ _)
  have inVerdict := subject.isConsistent_loadingVerdict.loading.used
  exact not_iff_not.mp (inVerdict.symm.trans ((Bool.eq_iff_iff.mp same).trans found.used))

theorem fits_packer :
    subject.packer.Fits subject.missing subject.loadingVerdict.loadingPackages := by
  simp only [packer, Packing.isPacked, Bool.not_not, NameSet.isEmpty_iff,
    ← loadingPackages_eq_nil_iff]
  split
  · rename_i noneMissing
    constructor <;> simp [noneMissing]
  · rename_i missing
    split
    · rename_i noneLoading
      constructor <;> simp [missing, noneLoading]
    · rename_i loading
      constructor <;> simp [missing, loading]

/-- The verdict of an analysis that was carried through, with the reflection that a synthesis has
removed. -/
def fullVerdict (removed : Detection) : Verdict :=
  (subject.loadingVerdict.addReflection removed).addReflection subject.reflection

theorem isConsistent_fullVerdict {removed : Detection}
    (removedConsistent : removed.IsConsistent subject.scope) :
    (subject.fullVerdict removed).IsConsistent := by
  have first : (subject.loadingVerdict.addReflection removed).IsConsistent := by
    refine subject.isConsistent_loadingVerdict.addReflection ?_
    rw [scope_loadingVerdict]
    exact removedConsistent
  refine first.addReflection ?_
  rw [(Verdict.addReflection_frame _ _).1, scope_loadingVerdict]
  exact Detection.isConsistent_detect _ _

theorem loading_fullVerdict (removed : Detection) :
    (subject.fullVerdict removed).loading = subject.loadingVerdict.loading ∧
      (subject.fullVerdict removed).packer = subject.packer := by
  obtain ⟨_, loading, packer⟩ := Verdict.addReflection_frame subject.loadingVerdict removed
  obtain ⟨_, fullLoading, fullPacker⟩ := Verdict.addReflection_frame
    (subject.loadingVerdict.addReflection removed) subject.reflection
  exact ⟨fullLoading.trans loading, fullPacker.trans packer⟩

end Subject

/-- What a synthesis can come to: it was not asked for, it made an unpacker, or there is a reason
why it made none. -/
theorem synthesis_cases {toolkit : Toolkit} {settings : Settings} {subject : Subject}
    {made : Synthesis}
    (synthesized : synthesis toolkit settings subject = .ok made) :
    (settings.synthesize = false ∧ made = {}) ∨
      (settings.synthesize = true ∧ ∃ unpacker, made.unpacker = some unpacker ∧
        made.error = none ∧ made.removed = subject.removedReflection unpacker) ∨
      (settings.synthesize = true ∧ made.unpacker = none ∧ made.error ≠ none ∧
        made.removed = {}) := by
  rw [synthesis] at synthesized
  split at synthesized
  · rename_i unasked
    exact .inl ⟨by simpa using unasked, (Except.ok.inj synthesized).symm⟩
  · rename_i asked
    have asked : settings.synthesize = true := by simpa using asked
    split at synthesized
    · rename_i unpacker log _
      obtain rfl := Except.ok.inj synthesized
      exact .inr (.inl ⟨asked, unpacker, rfl, rfl, rfl⟩)
    · obtain rfl := Except.ok.inj synthesized
      exact .inr (.inr ⟨asked, rfl, Option.some_ne_none _, rfl⟩)
    · obtain rfl := Except.ok.inj synthesized
      exact .inr (.inr ⟨asked, rfl, Option.some_ne_none _, rfl⟩)
    · simp at synthesized

theorem isConsistent_removed {toolkit : Toolkit} {settings : Settings} {subject : Subject}
    {made : Synthesis}
    (synthesized : synthesis toolkit settings subject = .ok made) :
    made.removed.IsConsistent subject.scope := by
  rcases synthesis_cases synthesized with
    ⟨_, rfl⟩ | ⟨_, unpacker, _, _, removed⟩ | ⟨_, _, _, removed⟩
  · exact Detection.isConsistent_empty
  · rw [removed]
    exact subject.isConsistent_removedReflection unpacker
  · rw [removed]
    exact Detection.isConsistent_empty

/-- An analysis goes on if the app is packed or the settings ask for it. -/
def GoesOn (settings : Settings) (missing : NameSet) : Prop :=
  missing.toList ≠ [] ∨ settings.continueUnpacked = true

/-- A report comes from an analysis that ended early or from one that was carried through. -/
theorem runOn_cases {toolkit : Toolkit} {settings : Settings} {subject : Subject} {report : Report}
    (analysed : (runOn toolkit settings subject).result = .ok report) :
    (¬GoesOn settings subject.missing ∧
        report = { verdict := subject.blankVerdict, missing := subject.missing }) ∨
      (GoesOn settings subject.missing ∧ ∃ made, synthesis toolkit settings subject = .ok made ∧
        report = {
          verdict := subject.fullVerdict made.removed
          missing := subject.missing
          unpacker := made.unpacker
          unpackerError := made.error }) := by
  have goesOn : GoesOn settings subject.missing ↔
      ¬(!Packing.isPacked subject.missing && !settings.continueUnpacked) = true := by
    simp [GoesOn, Packing.isPacked, NameSet.isEmpty, or_iff_not_imp_left]
  rw [runOn] at analysed
  split at analysed
  · rename_i ended
    exact .inl ⟨fun goes => goesOn.mp goes ended, (Except.ok.inj analysed).symm⟩
  · rename_i on
    refine .inr ⟨goesOn.mpr on, ?_⟩
    simp only at analysed
    split at analysed
    · simp at analysed
    · rename_i made synthesized
      exact ⟨made, synthesized, (Except.ok.inj analysed).symm⟩

/-- A report whose parts agree: the flags with the packages, the packer with the missing classes and
the packages that load classes, and the unpacker with the reason why there is none. -/
structure Report.IsConsistent (settings : Settings) (report : Report) : Prop where
  verdict : report.verdict.IsConsistent
  packer : report.verdict.packer.Fits report.missing report.verdict.loadingPackages
  notBoth : report.unpacker = none ∨ report.unpackerError = none
  oneIfAsked : settings.synthesize = true → GoesOn settings report.missing →
    (report.unpacker = none ↔ report.unpackerError ≠ none)

theorem isConsistent_of_ended {settings : Settings} {subject : Subject}
    (ended : ¬GoesOn settings subject.missing) :
    Report.IsConsistent settings
      { verdict := subject.blankVerdict, missing := subject.missing } := by
  have noneMissing : subject.missing.toList = [] := by
    by_contra missing
    exact ended (.inl missing)
  refine ⟨subject.isConsistent_blankVerdict, ?_, .inl rfl, fun _ goes => absurd goes ended⟩
  constructor <;> simp [Subject.blankVerdict, noneMissing]

theorem isConsistent_of_synthesis {toolkit : Toolkit} {settings : Settings} {subject : Subject}
    {made : Synthesis}
    (synthesized : synthesis toolkit settings subject = .ok made) :
    Report.IsConsistent settings {
      verdict := subject.fullVerdict made.removed
      missing := subject.missing
      unpacker := made.unpacker
      unpackerError := made.error } := by
  obtain ⟨loading, packer⟩ := subject.loading_fullVerdict made.removed
  have packages : (subject.fullVerdict made.removed).loadingPackages =
      subject.loadingVerdict.loadingPackages := congrArg Detection.packages loading
  refine ⟨subject.isConsistent_fullVerdict (isConsistent_removed synthesized), ?_, ?_, ?_⟩
  · rw [packer, packages]
    exact subject.fits_packer
  · rcases synthesis_cases synthesized with
      ⟨_, rfl⟩ | ⟨_, _, _, noReason, _⟩ | ⟨_, noUnpacker, _, _⟩
    · exact .inl rfl
    · exact .inr noReason
    · exact .inl noUnpacker
  · intro asked _
    rcases synthesis_cases synthesized with
      ⟨unasked, _⟩ | ⟨_, unpacker, isMade, noReason, _⟩ | ⟨_, noUnpacker, reason, _⟩
    · simp [asked] at unasked
    · simp [isMade, noReason]
    · exact iff_of_true noUnpacker reason

theorem exists_report_of_map {outcome : Outcome} {View : Type} {view : Report → View} {seen : View}
    (mapped : outcome.result.toOption.map view = some seen) :
    ∃ report, outcome.result = .ok report ∧ view report = seen := by
  cases result : outcome.result with
  | error failure => simp [result, Except.toOption] at mapped
  | ok report => exact ⟨report, rfl, by simpa [result, Except.toOption] using mapped⟩

/-- Every report of an analysis agrees with itself, whether the analysis ended early or was carried
through, and whatever came of the synthesis. -/
theorem isConsistent_of_run {toolkit : Toolkit} {settings : Settings} {cancelled : Bool}
    {path : Text} {loaded : Except LoadError Facts} {report : Report}
    (analysed : (run toolkit settings cancelled path loaded).result = .ok report) :
    report.IsConsistent settings := by
  cases loaded with
  | error error => simp [run] at analysed
  | ok facts =>
      cases cancelled with
      | true => simp [run] at analysed
      | false =>
          rcases runOn_cases analysed with ⟨ended, rfl⟩ | ⟨_, made, synthesized, rfl⟩
          · exact isConsistent_of_ended ended
          · exact isConsistent_of_synthesis synthesized

/-- A packed app without an entry class, which loads classes in its own package and uses reflection
in another one. -/
theorem isConsistent_of_run_packed :
    ∃ report, (run {} {} false "a.apk" (.ok (.ofClasses
        [{ name := "a.b.C", source := "loadDex" }, { name := "c.D", source := "invoke" }]
        [("AndroidManifest.xml", "<manifest package='a'><activity android:name='X'/>")]))).result =
          .ok report ∧
      report.missing.toList = ["a/X.class".toList] ∧
      report.verdict.loadingPackages.toList = ["a.b".toList] ∧
      report.verdict.reflectivePackages.toList = ["c".toList] ∧ report.IsConsistent {} := by
  have seen : (run {} {} false "a.apk" (.ok (.ofClasses
      [{ name := "a.b.C", source := "loadDex" }, { name := "c.D", source := "invoke" }]
      [("AndroidManifest.xml", "<manifest package='a'><activity android:name='X'/>")]))
        ).result.toOption.map (fun report => (report.missing.toList,
          report.verdict.loadingPackages.toList, report.verdict.reflectivePackages.toList)) =
      some (["a/X.class".toList], ["a.b".toList], ["c".toList]) := by decide +kernel
  obtain ⟨report, analysed, parts⟩ := exists_report_of_map seen
  simp only [Prod.mk.injEq] at parts
  exact ⟨report, analysed, parts.1, parts.2.1, parts.2.2, isConsistent_of_run analysed⟩

example : (run { parser := .error "no grammar" } {} false "a.apk" (.ok (.ofClasses
    [{ name := "a.A", source := "class A \x7b\x7d", superclass := some "android.app.Application" }]
    []))).result.toOption.map (fun report => (report.unpacker.isSome, report.unpackerError)) =
      some (false, some "Rewrite failed: Failed to parse : no grammar".toList) := by decide +kernel

end Analysis

end Unpacking
