import Unpacking.Batch.Record
import Unpacking.Report.Json

/-!
The report of a run as a document.
-/

namespace Unpacking.Report

/-- The version of the program. -/
def version : Text :=
  "0.3.0"

/-- What the document says about the unpacker of a package. -/
def synthesisJson (report : Analysis.Report) (path : Option Text) : Json :=
  match report.unpacker with
  | some unpacker => .object [
      ("status", .string "present"),
      ("class_name", .string unpacker.qualifiedName),
      ("classes", .strings unpacker.classes),
      ("unhandled_imports", .strings unpacker.unhandledImports),
      ("removed_methods", .natural unpacker.removal.removedMethods.length),
      ("commented_lines", .natural unpacker.removal.commentedLines),
      ("path", .optional path)]
  | none => .object [("status", .string "absent"), ("reason", .optional report.unpackerError)]

/-- What the document says about a completed analysis. -/
def resultJson (report : Analysis.Report) (path : Option Text) : Json :=
  let verdict := report.verdict
  .object [
    ("package_name", .string verdict.packageName),
    ("application_subclass_package_name", .optional verdict.applicationPackage),
    ("packer_type", .string verdict.packer.name),
    ("packed", .boolean report.isPacked),
    ("missing_classes", .strings report.missing.toList),
    ("reflection", .boolean verdict.usesReflection),
    ("dcl", .boolean verdict.usesLoading),
    ("reflection_in_app", .boolean verdict.reflectionInApp),
    ("dcl_in_app", .boolean verdict.loadingInApp),
    ("reflective_packages", .strings verdict.reflectivePackages.toList),
    ("dcl_packages", .strings verdict.loadingPackages.toList),
    ("synthesis", synthesisJson report path)]

/-- What the document says about a package. -/
def recordJson (record : Record) : Json :=
  let error : List (Text × Json) :=
    match record.outcome.error? with
    | some message => [("error", .string message)]
    | none => []
  let result : List (Text × Json) :=
    match record.outcome.report? with
    | some report => [("result", resultJson report record.unpackerPath)]
    | none => []
  .object ([
    ("path".toList, .string record.input.path),
    ("outcome".toList, .string record.outcome.label),
    ("elapsed_secs".toList, .number record.elapsed.shortText)] ++ error ++ result)

/-- The numbers at the end of the document. -/
structure Counts where
  total : Nat := 0
  completed : Nat := 0
  packed : Nat := 0
  managed : Nat := 0
  native : Nat := 0
  failed : Nat := 0
  timedOut : Nat := 0
  unpackers : Nat := 0
deriving DecidableEq, Repr

namespace Counts

/-- Count a completed analysis by its packer and its unpacker. -/
def addReport (counts : Counts) (report : Analysis.Report) : Counts :=
  let counts := { counts with completed := counts.completed + 1 }
  let counts :=
    match report.verdict.packer with
    | .managed => { counts with managed := counts.managed + 1 }
    | .native => { counts with native := counts.native + 1 }
    | .unpacked => counts
  if report.unpacker.isSome then { counts with unpackers := counts.unpackers + 1 } else counts

/-- Count a package while it is written. -/
def add (counts : Counts) (record : Record) : Counts :=
  match record.outcome with
  | .completed report => counts.addReport report
  | _ => counts

/-- The numbers of a run: some are taken from the summary, and the others are counted. -/
def ofSummary (summary : Summary) : Counts :=
  summary.records.foldl add
    { total := summary.records.length
      packed := summary.packedCount
      failed := summary.failedCount
      timedOut := summary.timedOutCount }

/-- The written form of the numbers. -/
def json (counts : Counts) : Json :=
  .object [
    ("total", .natural counts.total),
    ("completed", .natural counts.completed),
    ("packed", .natural counts.packed),
    ("managed", .natural counts.managed),
    ("native", .natural counts.native),
    ("failed", .natural counts.failed),
    ("timed_out", .natural counts.timedOut),
    ("unpackers", .natural counts.unpackers)]

end Counts

/-- The document about a run. -/
def document (summary : Summary) : Json :=
  .object [
    ("version", .string version),
    ("output_dir", .string summary.outputDirectory),
    ("elapsed_secs", .number summary.elapsed.shortText),
    ("packages", .array (summary.records.map recordJson)),
    ("summary", (Counts.ofSummary summary).json)]

end Unpacking.Report
