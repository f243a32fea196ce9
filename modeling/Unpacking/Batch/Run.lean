import Unpacking.Batch.Layout
import Unpacking.Batch.Record
import Unpacking.File.Work

/-!
A run over many packages. Each package is loaded and analysed on its own, and its artifacts are
written as soon as it is done, while others are at work. A failure is kept in the record of its
package and never stops the run.
-/

namespace Unpacking.Batch

open Text

/-- What comes from the analysis of a package while it is waited for. -/
inductive Arrival where
  /-- The facts about the package, or why there are none. -/
  | loaded (facts : Except LoadError Facts)
  /-- The analysis broke off. -/
  | brokenOff
  /-- The time was up before anything came. -/
  | late

/-- A package that is to be processed. -/
structure Job where
  input : PackageInput
  /-- What comes from the analysis, and the tree of files afterwards. -/
  load : Tree → Tree × Arrival
  /-- What the analysis works with. -/
  toolkit : Toolkit := {}
  /-- What goes wrong with the files of the package. -/
  disk : Disk := fun _ => none
  /-- The time that the package takes. -/
  elapsed : Duration := {}

/-- A loader gives what comes from the analysis of the package at a path, and the tree of files
afterwards. -/
abbrev Loader := Tree → Text → Tree × Arrival

/-- The job for a package that a loader is asked about. -/
def Loader.job (loader : Loader) (input : PackageInput) : Job :=
  { input, load := fun tree => loader tree input.path }

/-- What is said when an analysis broke off. -/
def brokenOff : Text :=
  "Analysis thread exited without a result"

/-- What is said when the time for a package was up. -/
def timeUp (settings : Settings) (path : Text) : Text :=
  "Timeout after " ++ Nat.toDigits 10 settings.timeoutSeconds ++ "s while analyzing " ++ path

/-- The outcome and the log of the analysis of one package. -/
def analyse (toolkit : Toolkit) (settings : Settings) (path : Text) : Arrival → PackageOutcome × Log
  | .brokenOff => (.failed brokenOff, [Log.error brokenOff])
  | .late => (.timedOut, [Log.error (timeUp settings path)])
  | .loaded facts =>
    let outcome := Analysis.run toolkit settings false path facts
    match outcome.result with
    | .ok report => (.completed report, outcome.log)
    | .error .cancelled => (.timedOut, outcome.log ++ [Log.error "Analysis cancelled"])
    | .error (.load error) =>
      (.failed error.message,
        outcome.log ++ [Log.error ("Error analyzing " ++ path ++ ": " ++ error.message)])
    | .error (.removal _) => (.failed brokenOff, [Log.error brokenOff])

/-- Write a text file. -/
def writeText (disk : Disk) (path text : Text) : Work (Except RunError Unit) :=
  .single (Layout.write disk path text)

/-- Write the source of an unpacker, and give its path. -/
def writeUnpacker (disk : Disk) (layout : Layout) (stem : Text) (unpacker : Unpacker) :
    Work (Except RunError Text) := do
  let directory := layout.unpackerDirectory stem
  match ← Work.makeDirectories directory with
  | .error _ => pure (.error (.cannotCreate directory))
  | .ok () =>
    let path := Path.join directory (unpacker.className ++ ".java")
    match ← writeText disk path unpacker.source with
    | .error error => pure (.error error)
    | .ok () => pure (.ok path)

/-- Write the artifacts of a completed analysis: its result file, then its unpacker. -/
def writeArtifacts (disk : Disk) (settings : Settings) (layout : Layout) (stem : Text)
    (report : Analysis.Report) : Work (Except RunError (Option Text)) := do
  match ← writeText disk (layout.resultPath stem) report.verdict.resultFile with
  | .error error => pure (.error error)
  | .ok () =>
    match report.unpacker with
    | none => pure (.ok none)
    | some unpacker =>
      if settings.writeUnpackers then
        match ← writeUnpacker disk layout stem unpacker with
        | .error error => pure (.error error)
        | .ok path => pure (.ok (some path))
      else pure (.ok none)

/-- What is said when the artifacts of a package could not be written. -/
def notWritten (stem : Text) (error : RunError) : Text :=
  "Failed to write results for " ++ stem ++ ": " ++ error.message

/-- Write the log file of a package, if that is possible, and give its record. -/
def writeLog (disk : Disk) (layout : Layout) (log : Log) (record : Record) : Work Record := do
  let _ ← writeText disk (layout.logPath record.input.stem) log.contents
  pure record

/-- Keep the artifacts of a package, and record it. -/
def keep (settings : Settings) (layout : Layout) (job : Job) (outcome : PackageOutcome)
    (log : Log) : Work Record := do
  let input := job.input
  let elapsed := job.elapsed
  match outcome with
  | .completed report =>
    match ← writeArtifacts job.disk settings layout input.stem report with
    | .ok unpackerPath => writeLog job.disk layout log { input, outcome, elapsed, unpackerPath }
    | .error error =>
      let message := notWritten input.stem error
      writeLog job.disk layout (log ++ [Log.error message])
        { input, outcome := .failed message, elapsed }
  | _ => writeLog job.disk layout log { input, outcome, elapsed }

/-- Process one package. -/
def process (settings : Settings) (layout : Layout) (job : Job) : Work Record := do
  let arrival ← Work.single job.load
  let (outcome, log) := analyse job.toolkit settings job.input.path arrival
  keep settings layout job outcome log

/-- Write the combined table of all packages, and sum up. What was written stays when that fails. -/
def conclude (layout : Layout) (disk : Disk) (elapsed : Duration) (tree : Tree)
    (records : List Record) : Tree × Except RunError Summary :=
  let summary : Summary := { outputDirectory := layout.root, records, elapsed }
  match layout.writeTable disk (summary.reports.map Analysis.Report.verdict) tree with
  | (tree, .error error) => (tree, .error error)
  | (tree, .ok ()) => (tree, .ok summary)

/-- Process all packages one after the other, and sum up. -/
def run (settings : Settings) (layout : Layout) (disk : Disk) (elapsed : Duration) (tree : Tree)
    (jobs : List Job) : Tree × Except RunError Summary :=
  let (tree, records) := Work.runAll (jobs.map (process settings layout)) tree
  conclude layout disk elapsed tree records

end Unpacking.Batch
