import Unpacking.Package.Facts
import Unpacking.Path
import Unpacking.RunError
import Unpacking.Text.Blank
import Unpacking.Text.Lines

/-!
Discovery of the packages in an input directory, less those that a blacklist names.

A name is a text here. On a disk it is a sequence of bytes, and its text is the lossy reading of
them: what is no UTF-8 is read as the replacement character U+FFFD. Two files whose names differ
only in such bytes have one name here, and stems and blacklists cannot tell them apart.
-/

namespace Unpacking

open Text

/-- The form in which a package is given. -/
inductive PackageKind where
  /-- An app file, which has to be decompiled. -/
  | app
  /-- A directory that a decompiler has written. -/
  | decompiled
deriving DecidableEq, Repr

/-- A package to be analysed. -/
structure PackageInput where
  /-- The path, in the lossy reading of its names. -/
  path : Text
  kind : PackageKind
deriving DecidableEq, Repr

namespace PackageInput

/-- The name of the package in its directory. -/
def name (input : PackageInput) : Text :=
  (Path.fileName? input.path).getD []

/-- The name of the package's artifacts: the lossy reading of its file name, without the
extension. -/
def stem (input : PackageInput) : Text :=
  (Path.fileStem? input.path).getD input.path

/-- The name that a blacklist knows the package by: a directory counts as the app file it came
from. -/
def blacklistName (input : PackageInput) : Text :=
  match input.kind with
  | .app => input.name
  | .decompiled => input.name ++ ".apk"

end PackageInput

namespace Discovery

/-- The form of the package at a path, if there is one. -/
def kind? (tree : Tree) (path : Text) : Option PackageKind :=
  if tree.isFile path then
    match Path.extension? path with
    | some extension => if extension.map Char.toLower == "apk" then some .app else none
    | none => none
  else if tree.isDirectory path &&
      (tree.isDirectory (Path.join path "sources") ||
        tree.isFile (Path.join (Path.join path "resources") Facts.manifestName)) then
    some .decompiled
  else none

/-- The packages among the children of a directory. -/
def packagesIn (tree : Tree) (directory : Text) (names : List Text) : List PackageInput :=
  names.filterMap fun name =>
    let path := Path.join directory name
    (kind? tree path).map fun kind => { path, kind }

/-- The packages in a directory that are not on a blacklist, ordered by path. -/
def find (tree : Tree) (blacklist : List Text) (directory : Text) :
    Except RunError (List PackageInput) :=
  match tree.resolve directory with
  | .error _ => .error (.noInputDirectory directory)
  | .ok names =>
    if tree.lookup names = some .directory then
      let found := (packagesIn tree directory (tree.children names)).filter fun input =>
        !blacklist.contains input.blacklistName
      .ok (found.mergeSort fun left right => !Path.precedes right.path left.path)
    else .error (.noInputDirectory directory)

/-- The package that a line of a blacklist names. The line is the name of a result or log file:
its ending of three characters gives way to that of app files. -/
def blacklisted? (line : Text) : Option Text :=
  match line.reverse with
  | _ :: _ :: _ :: '.' :: [] => none
  | _ :: _ :: _ :: '.' :: stem => some (stem.reverse ++ ".apk")
  | _ => none

/-- The packages that a blacklist names. -/
def parseBlacklist (text : Text) : List Text :=
  (lines text).filterMap fun line => blacklisted? (trim line)

/-- Read a blacklist. -/
def loadBlacklist (tree : Tree) (path : Text) : Except RunError (List Text) :=
  match tree.readText path with
  | .ok text => .ok (parseBlacklist text)
  | .error _ => .error (.unreadableBlacklist path)

end Discovery

end Unpacking
