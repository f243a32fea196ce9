import Unpacking.Analysis.Run
import Unpacking.Discovery
import Unpacking.Number.Decimal

/-!
What a run keeps about each of its packages.
-/

namespace Unpacking

/-- How the analysis of a package ended. -/
inductive PackageOutcome where
  | completed (report : Analysis.Report)
  | failed (message : Text)
  | timedOut

namespace PackageOutcome

/-- The word for an outcome. -/
def label : PackageOutcome → Text
  | .completed _ => "completed"
  | .failed _ => "failed"
  | .timedOut => "timeout"

/-- The report of a completed analysis. -/
def report? : PackageOutcome → Option Analysis.Report
  | .completed report => some report
  | _ => none

/-- Why there is no report. -/
def error? : PackageOutcome → Option Text
  | .completed _ => none
  | .failed message => some message
  | .timedOut => some "timeout".toList

/-- Whether an analysis failed. -/
def isFailed : PackageOutcome → Bool
  | .failed _ => true
  | _ => false

/-- Whether an analysis ran out of time. -/
def isTimedOut : PackageOutcome → Bool
  | .timedOut => true
  | _ => false

end PackageOutcome

/-- The record of one package. -/
structure Record where
  input : PackageInput
  outcome : PackageOutcome
  elapsed : Duration := {}
  /-- The file of the unpacker, if it was written. -/
  unpackerPath : Option Text := none

/-- The record of a whole run. -/
structure Summary where
  outputDirectory : Text
  records : List Record
  elapsed : Duration := {}

namespace Summary

/-- The reports of the completed analyses. -/
def reports (summary : Summary) : List Analysis.Report :=
  summary.records.filterMap fun record => record.outcome.report?

/-- The number of packed apps. -/
def packedCount (summary : Summary) : Nat :=
  summary.reports.countP Analysis.Report.isPacked

/-- The number of failed analyses. -/
def failedCount (summary : Summary) : Nat :=
  summary.records.countP fun record => record.outcome.isFailed

/-- The number of analyses that ran out of time. -/
def timedOutCount (summary : Summary) : Nat :=
  summary.records.countP fun record => record.outcome.isTimedOut

end Summary

end Unpacking
