import Unpacking.Proofs.Batch.Scheduling
import Unpacking.Proofs.Report.Reading

/-!
What is left of a run in its summary, its table and its reports. Main statement:
`summary_of_canEnd` says that no package is lost and that the views of a run agree.
-/

namespace Unpacking.Batch

open Text Report

variable {settings : Settings} {layout : Layout} {disk : Disk} {elapsed : Duration}
  {tree last : Tree}
  {jobs : List Job} {summary : Summary}

/-! ### The record of a package -/

/-- The outcome of an analysis is recorded as it is, or as a failure if the analysis was completed
and its artifacts could not be written. -/
inductive RecordedAs (stem : Text) : PackageOutcome → PackageOutcome → Prop
  | asItIs (outcome : PackageOutcome) : RecordedAs stem outcome outcome
  | notWritten (report : Analysis.Report) (error : RunError) :
    RecordedAs stem (.completed report) (.failed (notWritten stem error))

theorem RecordedAs.eq_completed {stem : Text} {given recorded : PackageOutcome}
    {report : Analysis.Report} (recordedAs : RecordedAs stem given recorded)
    (taken : recorded.report? = some report) : given = .completed report := by
  cases recordedAs with
  | notWritten other error => simp [PackageOutcome.report?] at taken
  | asItIs =>
    cases given with
    | completed other => rw [Option.some.inj taken]
    | failed message => simp [PackageOutcome.report?] at taken
    | timedOut => simp [PackageOutcome.report?] at taken

/-- A record of a job: it is about the package of the job, and its outcome is that of an analysis of
what came for the package. -/
structure IsRecordOf (settings : Settings) (job : Job) (record : Record) : Prop where
  input : record.input = job.input
  outcome : ∃ tree, RecordedAs job.input.stem
    (analyse job.toolkit settings job.input.path (job.load tree).2).1 record.outcome

theorem ensures_writeLog (log : Log) (record : Record) :
    (writeLog disk layout log record).Ensures (· = record) := by
  apply Work.Ensures.bind
  exact .of_forall (fun _ => rfl) _

theorem ensures_keep (job : Job) (outcome : PackageOutcome) (log : Log) :
    (keep settings layout job outcome log).Ensures fun record =>
      record.input = job.input ∧ RecordedAs job.input.stem outcome record.outcome := by
  have recorded {log : Log} {record : Record} (isInput : record.input = job.input)
      (recordedAs : RecordedAs job.input.stem outcome record.outcome) :
      (writeLog job.disk layout log record).Ensures fun record =>
        record.input = job.input ∧ RecordedAs job.input.stem outcome record.outcome := by
    apply (ensures_writeLog log record).imp
    rintro _ rfl
    exact ⟨isInput, recordedAs⟩
  cases outcome with
  | completed report =>
    apply Work.Ensures.bind
    refine .of_forall (fun written => ?_) _
    cases written with
    | ok unpackerPath => exact recorded rfl (.asItIs _)
    | error error => exact recorded rfl (.notWritten report error)
  | failed message => exact recorded rfl (.asItIs _)
  | timedOut => exact recorded rfl (.asItIs _)

theorem ensures_process (job : Job) :
    (process settings layout job).Ensures (IsRecordOf settings job) := by
  apply Work.Ensures.bind
  intro tree
  apply (ensures_keep job _ _).imp
  rintro record ⟨isInput, recordedAs⟩
  exact ⟨isInput, tree, recordedAs⟩

/-! ### The end of a run -/

/-- A way in which a run can end: its packages are processed in some order, down to single accesses,
and the table is written when all of them are done. -/
def CanEnd (settings : Settings) (layout : Layout) (disk : Disk) (elapsed : Duration) (tree : Tree)
    (jobs : List Job) (result : Tree × Except RunError Summary) : Prop :=
  ∃ last records, (workers settings layout tree jobs).Reaches (.finished last records) ∧
    conclude layout disk elapsed last records = result

/-- A run can process its packages one after the other. -/
theorem canEnd_run (settings : Settings) (layout : Layout) (disk : Disk) (elapsed : Duration)
    (tree : Tree) (jobs : List Job) :
    CanEnd settings layout disk elapsed tree jobs
      (run settings layout disk elapsed tree jobs) :=
  ⟨_, _, Pool.reaches_runAll _ tree, rfl⟩

theorem conclude_eq_ok {records : List Record}
    (concluded : conclude layout disk elapsed tree records = (last, .ok summary)) :
    summary.records = records ∧ summary.outputDirectory = layout.root ∧
      last.readText layout.tablePath =
        .ok (Layout.table (summary.reports.map Analysis.Report.verdict)) := by
  simp only [conclude, Layout.writeTable] at concluded
  split at concluded
  · simp at concluded
  · rename_i changed kept
    obtain ⟨rfl, same⟩ := Prod.mk.inj concluded
    obtain rfl := Except.ok.inj same
    exact ⟨rfl, rfl, Layout.readText_of_write kept⟩

/-! ### The packers of the reports -/

/-- The packer of a report tells whether the app is packed. -/
theorem isPacked_of_run {path : Text} {facts : Except LoadError Facts} {report : Analysis.Report}
    {toolkit : Toolkit}
    (analysed : (Analysis.run toolkit settings false path facts).result = .ok report) :
    report.isPacked = (report.verdict.packer != .unpacked) := by
  obtain ⟨facts, analysedFacts⟩ := Analysis.exists_runOn_of_run analysed
  have fits : report.verdict.packer.Fits report.missing report.verdict.loadingPackages := by
    rcases Analysis.runOn_cases analysedFacts with ⟨ended, rfl⟩ | ⟨-, made, synthesized, rfl⟩
    · exact (Analysis.isConsistent_of_ended ended).packer
    · exact (Analysis.isConsistent_of_synthesis synthesized).packer
  rw [Bool.eq_iff_iff, bne_iff_ne, Ne, fits.unpacked, ← NameSet.isEmpty_iff]
  simp [Analysis.Report.isPacked, Packing.isPacked]

theorem IsRecordOf.isPacked {job : Job} {record : Record} {report : Analysis.Report}
    (isRecord : IsRecordOf settings job record) (taken : record.outcome.report? = some report) :
    report.isPacked = (report.verdict.packer != .unpacked) := by
  obtain ⟨tree, recordedAs⟩ := isRecord.outcome
  obtain ⟨facts, analysed⟩ := exists_run_of_analyse (recordedAs.eq_completed taken)
  exact isPacked_of_run analysed

/-- Every packed app has a managed or a native packer. -/
theorem packedCount_eq (isRecord : List.Forall₂ (IsRecordOf settings) jobs summary.records) :
    summary.packedCount =
      summary.reports.countP (fun report => report.verdict.packer == .managed) +
        summary.reports.countP fun report => report.verdict.packer == .native := by
  rw [Summary.packedCount, Summary.reports]
  generalize summary.records = records at isRecord ⊢
  induction isRecord with
  | nil => rfl
  | @cons job record jobs records first _ inductionHypothesis =>
    cases taken : record.outcome.report? with
    | none => simpa only [List.filterMap_cons, taken] using inductionHypothesis
    | some report =>
      have told := first.isPacked taken
      simp only [List.filterMap_cons, taken, List.countP_cons, told, inductionHypothesis]
      cases report.verdict.packer <;> simp <;> omega

/-! ### The views of a run -/

/-- However the accesses of the packages are ordered, a run that ends well has one record for each
package, in their order, and its views agree: the table has a row for each completed analysis, and
the numbers of the document add up, belong to its list of packages, and are those that a terminal
shows. -/
theorem summary_of_canEnd
    (ended : CanEnd settings layout disk elapsed tree jobs (last, .ok summary)) :
    List.Forall₂ (IsRecordOf settings) jobs summary.records ∧
      last.readText layout.tablePath = .ok (Verdict.tableHeader ++ "\n" ++
        (summary.records.filterMap fun record => record.outcome.report?).flatMap fun report =>
          report.verdict.tableRow) ∧
      ∃ counts items, Counts.read? (document summary) = some counts ∧
        packages? (document summary) = some items ∧
        List.Forall₂ Describes items summary.records ∧
        counts.AreOf summary ∧ counts.total = jobs.length ∧
        counts.total = counts.completed + counts.failed + counts.timedOut ∧
        counts.packed = counts.managed + counts.native ∧
        ∀ options : TerminalOptions,
          if jobs.isEmpty then
            terminal options summary =
              line ((Style.vivid .yellow).paint options.colors "No packages analyzed.")
          else ∃ sums unpackers, counts.IsGiven sums unpackers ∧
            line ("Summary: " ++ sums) ++ unpackers ++
                line ("Results: " ++ (Style.plain .cyan).paint options.colors layout.root) <:+
              terminal options summary := by
  obtain ⟨final, records, reached, concluded⟩ := ended
  obtain ⟨rfl, root, table⟩ := conclude_eq_ok concluded
  have isRecord : List.Forall₂ (IsRecordOf settings) jobs summary.records :=
    Pool.forall₂_of_finished ensures_process reached
  have sameLength := isRecord.length_eq
  have empty_iff : summary.records = [] ↔ jobs = [] := by
    rw [← List.length_eq_zero_iff, ← sameLength, List.length_eq_zero_iff]
  obtain ⟨items, isItems, describes⟩ := forall₂_packages summary
  have areOf := Counts.areOf_ofSummary summary
  refine ⟨isRecord, ?_, _, items, Counts.read?_document summary, isItems, describes, areOf, ?_, ?_,
    ?_, fun options => ?_⟩
  · rw [table, Layout.table, List.flatMap_map]
    rfl
  · rw [areOf.total, sameLength]
  · rw [areOf.total, areOf.completed, areOf.failed, areOf.timedOut]
    exact length_records summary
  · rw [areOf.packed, areOf.managed, areOf.native]
    exact packedCount_eq isRecord
  · split
    · rename_i empty
      rw [terminal, if_pos (by simpa [empty_iff] using empty)]
    · rename_i filled
      rw [← root]
      exact exists_isGiven options (by simpa [empty_iff] using filled)

/-- A packed app, an analysis that breaks off, one that is late, and an app whose result cannot be
written. -/
theorem summary_of_canEnd_four :
    let packed := Facts.ofClasses [{ name := "a.b.C", source := "loadDex" }]
      [("AndroidManifest.xml", "<manifest package='a'><activity android:name='X'/>")]
    let arrivals : List (Text × Arrival) := [("a.apk", .loaded (.ok packed)), ("b.apk", .brokenOff),
      ("c.apk", .late), ("d.apk", .loaded (.ok packed))]
    let jobs : List Job := arrivals.map fun arrival =>
      { input := { path := arrival.1, kind := .app }, load := fun tree => (tree, arrival.2) }
    let tree := ((({} : Tree).put ["out"] .directory).put ["out", "results"] .directory).put
      ["out", "results", "d.txt"] .directory
    ∃ last summary,
      CanEnd { synthesize := false } { root := "out" } (fun _ => none) {} tree jobs
          (last, .ok summary) ∧
        summary.records.map (fun record => record.outcome.label) =
          ["completed".toList, "failed".toList, "timeout".toList, "failed".toList] ∧
        ∃ counts, Counts.read? (document summary) = some counts ∧
          counts = { total := 4, completed := 1, packed := 1, managed := 1, failed := 2,
                     timedOut := 1 } ∧
          ∃ sums unpackers, counts.IsGiven sums unpackers ∧
            line ("Summary: " ++ sums) ++ unpackers ++ line "Results: out" <:+
              terminal {} summary := by
  intro packed arrivals jobs tree
  have seen : (run { synthesize := false } { root := "out" } (fun _ => none) {} tree
      jobs).2.toOption.map
      (fun summary => (summary.records.map (fun record => record.outcome.label),
        Counts.ofSummary summary)) =
      some (["completed".toList, "failed".toList, "timeout".toList, "failed".toList],
        { total := 4, completed := 1, packed := 1, managed := 1, failed := 2, timedOut := 1 }) := by
    decide +kernel
  have canEnd := canEnd_run { synthesize := false } { root := "out" } (fun _ => none) {} tree jobs
  generalize run { synthesize := false } { root := "out" } (fun _ => none) {} tree jobs = ended
    at seen canEnd
  obtain ⟨last, error | summary⟩ := ended
  · cases seen
  · obtain ⟨labels, counted⟩ := Prod.mk.inj (Option.some.inj seen)
    obtain ⟨-, -, counts, items, read, -, -, -, -, -, -, shown⟩ := summary_of_canEnd canEnd
    obtain ⟨sums, unpackers, given⟩ := shown {}
    have same : counts = Counts.ofSummary summary :=
      Option.some.inj (read.symm.trans (Counts.read?_document summary))
    exact ⟨last, summary, canEnd, labels, counts, read, same.trans counted, sums, unpackers, given⟩

end Unpacking.Batch
