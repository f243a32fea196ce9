import Unpacking.Path

/-!
Trees of files. A tree maps lists of names to directories, files and tools, and the operations on
paths answer the way a file system does. Main statements: `lookup_put_same` and
`lookup_put_other`.
-/

namespace Unpacking

open Text

/-- Why an operation on files fails. -/
inductive FileError where
  | notFound
  | denied
  | exists
  | notDirectory
  | isDirectory
  /-- The content is no text. -/
  | notText
deriving DecidableEq, Repr

/-- The wording of an error. -/
def FileError.message : FileError → Text
  | .notFound => "No such file or directory (os error 2)"
  | .denied => "Permission denied (os error 13)"
  | .exists => "File exists (os error 17)"
  | .notDirectory => "Not a directory (os error 20)"
  | .isDirectory => "Is a directory (os error 21)"
  | .notText => "stream did not contain valid UTF-8"

/-- The content of a file. -/
inductive FileContent where
  | text (text : Text)
  /-- Bytes that are no text. -/
  | binary (bytes : List UInt8)
deriving DecidableEq, Repr

/-- The content that some bytes stand for. -/
def FileContent.ofBytes (bytes : List UInt8) : FileContent :=
  match String.fromUTF8? ⟨bytes.toArray⟩ with
  | some decoded => .text decoded.toList
  | none => .binary bytes

/-- The content that the first bytes of a text make. -/
def FileContent.beginning (text : Text) (size : Nat) : FileContent :=
  .ofBytes ((String.ofList text).toUTF8.data.toList.take size)

/-- What goes wrong with the writing of a file. -/
inductive WriteFault where
  /-- The file cannot be opened. -/
  | refused
  /-- The file is opened, which makes it or empties it, and then only its first bytes arrive. -/
  | brokenOff (size : Nat)
deriving DecidableEq, Repr

/-- What goes wrong on a disk with the writing of the file at a path, if anything. -/
abbrev Disk := Text → Option WriteFault

/-- What a tool does when it is run. -/
structure ToolScript where
  /-- What it says on its error stream. -/
  messages : Text
  /-- The files that it writes below its output directory; `none` leaves even the directory
  alone. -/
  files : Option (List (Text × FileContent))
deriving DecidableEq, Repr

/-- What stands at a place of a tree. -/
inductive Entry where
  | directory
  | file (content : FileContent)
  /-- A file that can be run. -/
  | tool (script : ToolScript)
deriving DecidableEq, Repr

/-- A place in a tree: the names on the way to it from the working directory. The first name of an
absolute place is a slash. -/
abbrev Names := List Text

theorem nodup_places_nil : (([] : List (Names × Entry)).map Prod.fst).Nodup := by simp

/-- A tree of files, in which one entry at most stands at a place. -/
structure Tree where
  entries : List (Names × Entry) := []
  distinct : (entries.map Prod.fst).Nodup := by exact nodup_places_nil
deriving DecidableEq, Repr

namespace Tree

/-- What stands at a place. The working directory is always there. -/
def lookup (tree : Tree) (names : Names) : Option Entry :=
  if names.isEmpty then some .directory
  else (tree.entries.find? fun entry => entry.1 == names).map Prod.snd

/-- Put an entry in place of whatever stands there. -/
def put (tree : Tree) (names : Names) (entry : Entry) : Tree :=
  { entries := (names, entry) :: tree.entries.filter fun other => other.1 != names
    distinct := by
      rw [List.map_cons, List.nodup_cons]
      refine ⟨?_, tree.distinct.sublist (List.filter_sublist.map Prod.fst)⟩
      simp }

theorem lookup_put_same (tree : Tree) {names : Names} (entry : Entry) (proper : names ≠ []) :
    (tree.put names entry).lookup names = some entry := by
  simp [lookup, put, proper]

theorem lookup_put_other (tree : Tree) {names other : Names} (entry : Entry)
    (different : other ≠ names) : (tree.put names entry).lookup other = tree.lookup other := by
  by_cases empty : other = []
  · simp [lookup, empty]
  · have skipped : (tree.entries.filter fun one => one.1 != names).find?
        (fun one => one.1 == other) = tree.entries.find? fun one => one.1 == other := by
      rw [List.find?_filter]
      congr 1
      funext one
      by_cases same : one.1 = other
      · simp [same, different]
      · simp [same]
    simp [lookup, put, empty, Ne.symm different, skipped]

/-- The place above a place. Above the working directory it goes on with two dots for each step, and
nothing is above the root. -/
def above (names : Names) : Names :=
  if names.all (· == "..") then names ++ [['.', '.']]
  else if names == [['/']] then names
  else names.dropLast

/-- The place that one part of a path leads to from a place. -/
def next (names : Names) (part : Text) : Names :=
  if part == [] || part == "." then names
  else if part == ".." then above names
  else names ++ [part]

/-- Go one part of a path further from a place, which has to be a directory. -/
def enter (tree : Tree) (names : Names) (part : Text) : Except FileError Names :=
  match tree.lookup names with
  | none => .error .notFound
  | some .directory => .ok (next names part)
  | some _ => .error .notDirectory

/-- The place where a path begins, and the parts of the path from there. -/
def start (path : Text) : Names × List Text :=
  if begins "/" path then ([['/']], fields (· == '/') path) else ([], fields (· == '/') path)

/-- The place that a path leads to. Nothing needs to stand there yet. -/
def resolve (tree : Tree) (path : Text) : Except FileError Names :=
  if path.isEmpty then .error .notFound
  else
    let (names, parts) := start path
    parts.foldlM tree.enter names

/-- What a path leads to. -/
def at? (tree : Tree) (path : Text) : Option Entry :=
  match tree.resolve path with
  | .ok names => tree.lookup names
  | .error _ => none

/-- Whether a path leads to anything. -/
def has (tree : Tree) (path : Text) : Bool :=
  (tree.at? path).isSome

/-- Whether a path leads to a directory. -/
def isDirectory (tree : Tree) (path : Text) : Bool :=
  match tree.at? path with
  | some .directory => true
  | _ => false

/-- Whether a path leads to a file. -/
def isFile (tree : Tree) (path : Text) : Bool :=
  match tree.at? path with
  | some (.file _) => true
  | some (.tool _) => true
  | _ => false

/-- The text at a place. -/
def textAt (tree : Tree) (names : Names) : Except FileError Text :=
  match tree.lookup names with
  | none => .error .notFound
  | some .directory => .error .isDirectory
  | some (.file (.text text)) => .ok text
  | some (.file (.binary _)) => .error .notText
  | some (.tool _) => .error .notText

/-- The text of the file that a path leads to. -/
def readText (tree : Tree) (path : Text) : Except FileError Text :=
  match tree.resolve path with
  | .error error => .error error
  | .ok names => tree.textAt names

/-- Go one part of a path further, and make a directory where nothing stands. -/
def enterOrCreate (state : Tree × Names) (part : Text) : Except FileError (Tree × Names) :=
  match state.1.enter state.2 part with
  | .error error => .error error
  | .ok names =>
    match state.1.lookup names with
    | none => .ok (state.1.put names .directory, names)
    | some .directory => .ok (state.1, names)
    | some _ => .error .exists

/-- Make all directories on a path. The empty path needs none. -/
def createDirectories (tree : Tree) (path : Text) : Except FileError Tree :=
  if path.isEmpty then .ok tree
  else
    let (names, parts) := start path
    (parts.foldlM enterOrCreate (tree, names)).map Prod.fst

/-- Write a file. The directory it stands in has to be there. -/
def writeFile (tree : Tree) (path : Text) (content : FileContent) : Except FileError Tree :=
  match tree.resolve path with
  | .error error => .error error
  | .ok names =>
    match tree.lookup names with
    | some .directory => .error .isDirectory
    | _ => if names.isEmpty then .error .isDirectory else .ok (tree.put names (.file content))

/-- The names below a directory, with what stands there, the directory itself left out. A place that
goes on with two dots or a slash lies elsewhere. -/
def below (tree : Tree) (directory : Names) : List (Names × Entry) :=
  tree.entries.filterMap fun (names, entry) =>
    if directory.isPrefixOf names && (names.drop directory.length).head?.any Path.isPlain then
      some (names.drop directory.length, entry)
    else none

/-- The names of what stands directly in a directory. -/
def children (tree : Tree) (directory : Names) : List Text :=
  (tree.below directory).filterMap fun (names, _) =>
    match names with
    | [name] => some name
    | _ => none

/-- The files below a path with their texts, and the empty directories without one. -/
def listing (tree : Tree) (path : Text) : List (Text × Option Text) :=
  match tree.resolve path with
  | .error _ => []
  | .ok directory =>
    (tree.below directory).filterMap fun (names, entry) =>
      let name := path ++ "/" ++ join "/" names
      match entry with
      | .file (.text text) => some (name, some text)
      | .directory =>
        if (tree.children (directory ++ names)).isEmpty then some (name, none) else none
      | _ => none

/-- The directory part of a path, which is empty for a bare name. -/
def parentPath (path : Text) : Text :=
  match cutLast? '/' path with
  | some (parent, _) => parent
  | none => []

/-- Write a file together with the directories on the way to it. -/
def place (tree : Tree) (path : Text) (entry : Entry) : Except FileError Tree := do
  let tree ← tree.createDirectories (parentPath path)
  let names ← tree.resolve path
  pure (tree.put names entry)

/-- Run the tool at a path with an output directory. A bare name is looked for among the installed
tools, of which there are none. -/
def runTool (tree : Tree) (tool output : Text) : Except FileError (Tree × Text) :=
  if !tool.contains '/' then .error .notFound
  else
    match tree.resolve tool with
    | .error error => .error error
    | .ok names =>
      match tree.lookup names with
      | none => .error .notFound
      | some (.tool script) =>
        match script.files with
        | none => .ok (tree, script.messages)
        | some files => do
          let tree ← tree.createDirectories output
          let tree ← files.foldlM (fun tree (name, content) =>
            tree.place (output ++ "/" ++ name) (.file content)) tree
          pure (tree, script.messages)
      | some _ => .error .denied

end Tree

end Unpacking
