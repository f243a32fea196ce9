import Unpacking.Batch.Record
import Unpacking.Report.Style

/-!
The report of a run for a terminal.
-/

namespace Unpacking.Report

open Text

/-- How a report for a terminal is written. -/
structure TerminalOptions where
  colors : Bool := false
  /-- Whether apps that are not packed are listed too. -/
  showAll : Bool := false
deriving DecidableEq, Repr

/-- A line of the report. -/
def line (text : Text) : Text :=
  text ++ "\n"

/-- The name of a packer, colored by its danger. -/
def packerBadge (colors : Bool) : Packer → Text
  | .unpacked => (Style.plain .green).paint colors Packer.unpacked.name
  | .managed => (Style.vivid .yellow).paint colors Packer.managed.name
  | .native => (Style.vivid .red).paint colors Packer.native.name

/-- A line with details of a package. -/
def detail (colors : Bool) (text : Text) : Text :=
  line ("    " ++ Style.faint.paint colors "→" ++ " " ++ text)

/-- The line about class loading and reflection. -/
def flagsLine (colors : Bool) (verdict : Verdict) : Text :=
  let loading : List Text :=
    if verdict.usesLoading then [if verdict.loadingInApp then "dcl (app)" else "dcl"] else []
  let reflection : List Text :=
    if verdict.usesReflection then
      [if verdict.reflectionInApp then "reflection (app)" else "reflection"]
    else []
  let flags := loading ++ reflection
  if flags.isEmpty then [] else detail colors (Style.faint.paint colors (join ", " flags))

/-- The line about the unpacker. -/
def unpackerLine (colors : Bool) (report : Analysis.Report) : Text :=
  match report.unpacker, report.unpackerError with
  | some unpacker, _ =>
    line ("    " ++ (Style.plain .green).paint colors "✓" ++ " unpacker " ++
      (Style.plain .green).paint colors unpacker.qualifiedName)
  | none, some reason =>
    line ("    " ++ (Style.plain .red).paint colors "✗" ++ " no unpacker: " ++
      Style.faint.paint colors reason)
  | none, none => []

/-- The lines about a completed analysis. -/
def reportLines (colors : Bool) (report : Analysis.Report) : Text :=
  let verdict := report.verdict
  line ((Style.plain .cyan).paint colors "●" ++ " " ++
    (Style.vivid .cyan).paint colors verdict.packageName ++ " [" ++
    packerBadge colors verdict.packer ++ "]") ++
  (if report.isPacked then
    detail colors (Decimal.ofNat report.missing.toList.length ++ " missing classes")
  else []) ++
  (match verdict.applicationPackage with
  | some package => detail colors ("entry point in " ++ (Style.plain .white).paint colors package)
  | none => []) ++
  flagsLine colors verdict ++ unpackerLine colors report

/-- The lines about a package. -/
def recordLines (colors : Bool) (record : Record) : Text :=
  match record.outcome with
  | .completed report => reportLines colors report
  | .failed message =>
    line ((Style.plain .red).paint colors "✗" ++ " " ++
      (Style.vivid .red).paint colors record.input.stem ++ " " ++
      Style.faint.paint colors message)
  | .timedOut =>
    line ((Style.plain .yellow).paint colors "⏱" ++ " " ++
      (Style.vivid .yellow).paint colors record.input.stem ++ " " ++
      Style.faint.paint colors "timed out")

/-- Whether a package is listed without being asked for: it is packed, or its analysis did not
complete. -/
def isListed (record : Record) : Bool :=
  match record.outcome with
  | .completed report => report.isPacked
  | _ => true

/-- A number with a word, if the number is not zero. -/
def counted (paint : Text → Text) (number : Nat) (word : Text) : List Text :=
  if number = 0 then [] else [paint (Decimal.ofNat number ++ word)]

/-- What is counted for the end of the report. -/
structure Tally where
  managed : Nat := 0
  native : Nat := 0
  unpackers : Nat := 0
deriving DecidableEq, Repr

/-- Count a completed analysis. -/
def Tally.add (tally : Tally) (report : Analysis.Report) : Tally :=
  let tally :=
    match report.verdict.packer with
    | .managed => { tally with managed := tally.managed + 1 }
    | .native => { tally with native := tally.native + 1 }
    | .unpacked => tally
  if report.unpacker.isSome then { tally with unpackers := tally.unpackers + 1 } else tally

/-- The parts of the line that sums up. -/
def summaryParts (colors : Bool) (summary : Summary) (tally : Tally) : List Text :=
  let yellow := (Style.plain .yellow).paint colors
  let red := (Style.plain .red).paint colors
  [yellow (Decimal.ofNat summary.packedCount ++ " packed")] ++
    counted id tally.managed " managed" ++
    counted id tally.native " native" ++
    counted red summary.failedCount " failed" ++
    counted yellow summary.timedOutCount " timed out"

/-- The lines at the end of the report. -/
def closingLines (colors : Bool) (summary : Summary) : Text :=
  let tally := summary.reports.foldl Tally.add {}
  line [] ++ line (Style.faint.paint colors (List.replicate 60 '─')) ++
  line ("Summary: " ++ join ", " (summaryParts colors summary tally)) ++
  (if tally.unpackers = 0 then []
  else line ("Unpackers: " ++
    (Style.plain .green).paint colors (Decimal.ofNat tally.unpackers))) ++
  line ("Results: " ++ (Style.plain .cyan).paint colors summary.outputDirectory)

/-- The report of a run for a terminal. -/
def terminal (options : TerminalOptions) (summary : Summary) : Text :=
  let colors := options.colors
  if summary.records.isEmpty then
    line ((Style.vivid .yellow).paint colors "No packages analyzed.")
  else
    line [] ++
    line (Style.strong.paint colors ("Analyzed " ++ Decimal.ofNat summary.records.length ++
      " packages in " ++ summary.elapsed.fixedText ++ "s:")) ++
    line [] ++
    (summary.records.filter fun record => options.showAll || isListed record).flatMap
      (recordLines colors) ++
    closingLines colors summary

end Unpacking.Report
