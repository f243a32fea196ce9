import Unpacking.File.Tree
import Unpacking.Java.Outline
import Unpacking.Package.Facts
import Unpacking.Path
import Unpacking.Text.Lines

/-!
Facts from a decompiled tree: the Java files below its sources, and its manifest.
-/

namespace Unpacking.SourceTree

open Text

/-- The directory that holds the sources: the one of that name, or else the whole tree. -/
def sourcesRoot (tree : Tree) (path : Text) : Text :=
  let sources := Path.join path "sources"
  if tree.isDirectory sources then sources else path

/-- The names that an ignore file in a directory excludes. -/
def ignoredNames (tree : Tree) (directory : Names) : List Text :=
  match tree.textAt (directory ++ [".ignore".toList]) with
  | .ok text => ((lines text).map trimEnd).filter fun line => !line.isEmpty && !begins "#" line
  | .error _ => []

/-- Whether the walk passes over a name in a directory: it is hidden, or an ignore file in the
directory or above excludes it. -/
def isPassedOver (tree : Tree) (directory : Names) (name : Text) : Bool :=
  begins "." name ||
    (List.range (directory.length + 1)).any fun depth =>
      (ignoredNames tree (directory.take depth)).contains name

/-- Whether the walk from a directory comes to a place below it. -/
def isReached (tree : Tree) (directory names : Names) : Bool :=
  (List.range names.length).all fun depth =>
    match names[depth]? with
    | some name => !isPassedOver tree (directory ++ names.take depth) name
    | none => true

/-- Whether an entry is a file. -/
def isFileEntry : Entry → Bool
  | .directory => false
  | _ => true

/-- The path of a place below a directory. -/
def pathBelow (directory : Text) (names : Names) : Text :=
  Path.join directory (join "/" names)

/-- The Java files that the walk from a directory comes to, ordered by path. -/
def javaFiles (tree : Tree) (root : Text) : List Text :=
  match tree.resolve root with
  | .error _ => []
  | .ok directory =>
    let found := (tree.below directory).filterMap fun (names, entry) =>
      let path := pathBelow root names
      if isFileEntry entry && Path.extension? path == some "java".toList &&
          isReached tree directory names then some path
      else none
    found.mergeSort fun left right => !Path.precedes right left

/-- The manifest of a tree: in its resources, or at its top, or else at most four levels down. -/
def manifestPath? (tree : Tree) (path : Text) : Option Text :=
  let usual := [Path.join (Path.join path "resources") Facts.manifestName,
    Path.join path Facts.manifestName]
  match usual.find? tree.isFile with
  | some found => some found
  | none =>
    match tree.resolve path with
    | .error _ => none
    | .ok directory =>
      let found := (tree.below directory).filterMap fun (names, entry) =>
        if isFileEntry entry && names.length ≤ 4 && names.getLast? == some Facts.manifestName then
          some (pathBelow path names)
        else none
      (found.mergeSort fun left right => !Path.precedes right left).head?

/-- The classes of a Java file. A file that cannot be parsed is passed over. -/
def classes (parser : Java.Parser) (source : Text) : List ClassFact :=
  match parser.parse source with
  | .error _ => []
  | .ok root =>
    let outline := root.outline source
    outline.types.map fun type =>
      { name := outline.qualify type.name
        source
        superclass := type.superclass.map outline.resolve
        imports := outline.imports }

/-- The text of a file of the tree. -/
def readSource (tree : Tree) (path : Text) : Except LoadError Text :=
  match tree.readText path with
  | .ok text => .ok text
  | .error error => .error (.unreadable path error.message)

/-- The facts from a decompiled tree, read with a parser if one can be made. -/
def load (parser : Except Text Java.Parser) (tree : Tree) (path : Text) : Except LoadError Facts :=
  if !tree.isDirectory path then .error (.notFound path)
  else
    let root := sourcesRoot tree path
    do
      let parser ← parser.mapError (LoadError.unparsable root)
      let sources ← (javaFiles tree root).mapM (readSource tree)
      let found := sources.flatMap (classes parser)
      if found.isEmpty then .error (.noSources root)
      else
        match manifestPath? tree path with
        | none => .ok (.ofClasses found [])
        | some manifest => do
          let text ← readSource tree manifest
          .ok (.ofClasses found [(Facts.manifestName, text)])

end Unpacking.SourceTree
