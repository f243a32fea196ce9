import Unpacking.Batch.Layout
import Unpacking.Report.Document
import Unpacking.Report.Terminal

/-!
Delivery of the report of a run in the form that was asked for.
-/

namespace Unpacking.Report

open Text

/-- The form of a report. -/
inductive Format where
  | terminal
  /-- A document in the directory of the run. -/
  | document
deriving DecidableEq, Repr

/-- What is printed of the document itself. -/
def printed (summary : Summary) : Text :=
  line (document summary).pretty

/-- Deliver a report: the tree of files afterwards, and what is printed. -/
def deliver (format : Format) (colors : Bool) (tree : Tree) (summary : Summary) :
    Except RunError (Tree × Text) :=
  match format with
  | .terminal => .ok (tree, terminal { colors } summary)
  | .document =>
    let path := ({ root := summary.outputDirectory } : Layout).summaryPath
    match tree.writeFile path (.text (document summary).pretty) with
    | .error error => .error (.file error)
    | .ok tree => .ok (tree, line ("Report written to: " ++ path))

end Unpacking.Report
