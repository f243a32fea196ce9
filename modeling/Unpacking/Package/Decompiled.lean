import Unpacking.Package.SourceTree
import Unpacking.Text.Blank

/-!
Facts about a package of either form. An app file is decompiled into a tree first, unless that was
done before.
-/

namespace Unpacking

open Text

/-- A decompiler, the directory that its trees go to, and the parser for its sources. -/
structure Decompiler where
  tool : Text
  workDirectory : Text
  /-- The parser, or why none can be made. -/
  parser : Except Text Java.Parser

namespace Decompiler

/-- The directory for the tree of an app file. -/
def outputDirectory (decompiler : Decompiler) (app : Text) : Text :=
  Path.join decompiler.workDirectory ((Path.fileStem? app).getD "package")

/-- Decompile an app file, and give the tree of files afterwards. A decompiler that complains is
right as long as it leaves sources behind. -/
def decompile (decompiler : Decompiler) (tree : Tree) (app : Text) :
    Tree × Except LoadError Text :=
  let output := decompiler.outputDirectory app
  let sources := Path.join output "sources"
  if tree.isDirectory sources then (tree, .ok output)
  else
    match tree.runTool decompiler.tool output with
    | .error error =>
      (tree, .error (.decompilerFailed app
        ("could not run " ++ decompiler.tool ++ ": " ++ error.message)))
    | .ok (tree, messages) =>
      if tree.isDirectory sources then (tree, .ok output)
      else (tree, .error (.decompilerFailed app (trim messages)))

/-- The facts about a package, and the tree of files afterwards. -/
def load (decompiler : Decompiler) (tree : Tree) (path : Text) : Tree × Except LoadError Facts :=
  if tree.isDirectory path then (tree, SourceTree.load decompiler.parser tree path)
  else if !tree.isFile path then (tree, .error (.notFound path))
  else
    match decompiler.decompile tree path with
    | (tree, .error error) => (tree, .error error)
    | (tree, .ok output) => (tree, SourceTree.load decompiler.parser tree output)

end Decompiler

end Unpacking
