import Unpacking.Analysis.Run
import Unpacking.File.Tree
import Unpacking.RunError

/-!
The directory of a run, and the places of its artifacts.
-/

namespace Unpacking

open Text

/-- The directory of a run. -/
structure Layout where
  root : Text
deriving DecidableEq, Repr

namespace Layout

/-- The directory of result files. -/
def resultsDirectory (layout : Layout) : Text :=
  Path.join layout.root "results"

/-- The directory of log files. -/
def logsDirectory (layout : Layout) : Text :=
  Path.join layout.root "logs"

/-- The directory of unpackers. -/
def unpackersDirectory (layout : Layout) : Text :=
  Path.join layout.root "unpackers"

/-- The directory of decompiled app files. -/
def decompiledDirectory (layout : Layout) : Text :=
  Path.join layout.root "decompiled"

/-- The combined table. -/
def tablePath (layout : Layout) : Text :=
  Path.join layout.root "combined_table.tsv"

/-- The report of a run as a document. -/
def summaryPath (layout : Layout) : Text :=
  Path.join layout.root "summary.json"

/-- The result file of a package. -/
def resultPath (layout : Layout) (stem : Text) : Text :=
  Path.join layout.resultsDirectory (stem ++ ".txt")

/-- The log file of a package. -/
def logPath (layout : Layout) (stem : Text) : Text :=
  Path.join layout.logsDirectory (stem ++ ".txt")

/-- The directory of the unpacker of a package. -/
def unpackerDirectory (layout : Layout) (stem : Text) : Text :=
  Path.join layout.unpackersDirectory stem

/-- Make a directory and those above it. -/
def makeDirectory (tree : Tree) (path : Text) : Except RunError Tree :=
  match tree.createDirectories path with
  | .ok tree => .ok tree
  | .error _ => .error (.cannotCreate path)

/-- Write a text file. A write that breaks off leaves the first bytes behind. -/
def write (disk : Disk) (path text : Text) (tree : Tree) : Tree × Except RunError Unit :=
  let written : Except FileError Tree :=
    match disk path with
    | some .refused => .error .denied
    | some (.brokenOff size) => tree.writeFile path (.beginning text size)
    | none => tree.writeFile path (.text text)
  match written with
  | .error _ => (tree, .error (.cannotWrite path))
  | .ok changed =>
    (changed, if (disk path).isNone then .ok () else .error (.cannotWrite path))

/-- Make the directory of a run below an output directory. -/
def create (tree : Tree) (output name : Text) : Except RunError (Tree × Layout) := do
  let layout : Layout := { root := Path.join output name }
  let tree ← makeDirectory tree layout.resultsDirectory
  let tree ← makeDirectory tree layout.logsDirectory
  pure (tree, layout)

/-- The combined table of some verdicts. -/
def table (verdicts : List Verdict) : Text :=
  Verdict.tableHeader ++ "\n" ++ verdicts.flatMap Verdict.tableRow

/-- Write the combined table. -/
def writeTable (layout : Layout) (disk : Disk) (verdicts : List Verdict) (tree : Tree) :
    Tree × Except RunError Unit :=
  write disk layout.tablePath (table verdicts) tree

end Layout

end Unpacking
