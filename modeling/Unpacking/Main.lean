import Std.Time.DateTime
import Unpacking.Command.Run

/-!
The command line of the program. It takes a picture of the files that a run may look at, and
writes down what the run has changed.
-/

namespace Unpacking

open Text

/-- The path of a place. -/
def pathOf (names : Names) : String :=
  match names with
  | ['/'] :: rest => String.ofList ("/" ++ join "/" rest)
  | _ => String.ofList (join "/" names)

/-- Add what stands at a place to a tree, and all that stands below it. -/
partial def readAll (tree : Tree) (names : Names) : IO Tree := do
  let path := (← IO.currentDir) / pathOf names
  if ← path.isDir then
    let children ← path.readDir
    children.foldlM (fun tree child => readAll tree (names ++ [child.fileName.toList]))
      (tree.put names .directory)
  else if ← path.pathExists then
    let bytes ← IO.FS.readBinFile path
    pure (tree.put names (.file (.ofBytes bytes.toList)))
  else pure tree

/-- Add what stands at a path to a tree: the directories on the way, and all below its end. -/
def readPath (tree : Tree) (path : Text) : IO Tree := do
  let (origin, parts) := Tree.start path
  let step (state : Tree × Names) (part : Text) : IO (Tree × Names) := do
    if part == [] || part == "." then pure state
    else
      let names := if part == ".." then Tree.above state.2 else state.2 ++ [part]
      if ← ((← IO.currentDir) / pathOf names).isDir then
        pure (state.1.put names .directory, names)
      else pure (state.1, names)
  let tree := if origin.isEmpty then tree else tree.put origin .directory
  let (tree, names) ← parts.foldlM step (tree, origin)
  readAll tree names

/-- Write one entry of a tree. -/
def writeEntry (names : Names) : Entry → IO Unit
  | .directory => IO.FS.createDirAll (pathOf names)
  | .file (.text text) => IO.FS.writeFile (pathOf names) (String.ofList text)
  | .file (.binary bytes) => IO.FS.writeBinFile (pathOf names) ⟨bytes.toArray⟩
  | .tool _ => pure ()

/-- Write what differs from the tree before, directories before what stands in them. -/
def writeChanges (before after : Tree) : IO Unit := do
  let changed := after.entries.filter fun (names, entry) => before.lookup names != some entry
  let inOrder := changed.mergeSort fun one other => one.1.length ≤ other.1.length
  for (names, entry) in inOrder do
    writeEntry names entry

/-- Carry out a run, and give its status. -/
def carryOut (arguments : Command.Arguments) : IO UInt32 := do
  let before ← (([arguments.input, arguments.output] ++ arguments.settingsFile.toList ++
    arguments.blacklist.toList ++ arguments.decompilerPath.toList).foldlM readPath {})
  let moment := (← Std.Time.Timestamp.now).toSecondsSinceUnixEpoch.val.toNat
  let started ← IO.monoNanosNow
  match arguments.execute moment before with
  | .error error =>
    IO.eprintln ("Error: " ++ String.ofList error.message)
    pure 1
  | .ok (tree, summary?) =>
    let finished ← IO.monoNanosNow
    let elapsed : Duration := { nanoseconds := finished - started }
    let timed := summary?.map fun summary => { summary with elapsed }
    match arguments.conclude false tree timed with
    | .error error =>
      IO.eprintln ("Error: " ++ String.ofList error.message)
      pure 1
    | .ok (tree, printed) =>
      writeChanges before tree
      IO.print (String.ofList printed)
      pure 0

end Unpacking

open Unpacking in
/-- Run the program. -/
def main (arguments : List String) : IO UInt32 := do
  match Command.Request.parse? (arguments.map String.toList) with
  | none =>
    IO.eprintln ("error: the arguments make no sense\n\n" ++ String.ofList Command.usage)
    pure 2
  | some .help =>
    IO.print (String.ofList Command.helpText)
    pure 0
  | some .version =>
    IO.print (String.ofList Command.versionText)
    pure 0
  | some (.run wishes) => carryOut wishes
