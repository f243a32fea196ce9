import Unpacking.Renaming.ClassSource
import Unpacking.Text.Pattern

/-!
Renaming several classes that go into one program. When every class has its new names, the uses
of members behind the name of their class follow, in all classes.
-/

namespace Unpacking.Renaming

open Text

/-- Rename the classes one after the other, no two of them sharing a new name. The first class that
cannot be renamed ends it. -/
def renameSeparately (parser : Java.Parser) (taken : List Text) :
    List (Text × Text) → Except RewriteError (List RenamedClass) × List Text
  | [] => (.ok [], taken)
  | (className, source) :: rest =>
    match renameClass parser taken className source with
    | (.error error, taken) => (.error error, taken)
    | (.ok renamed, taken) =>
      match renameSeparately parser taken rest with
      | (.error error, taken) => (.error error, taken)
      | (.ok others, taken) => (.ok (renamed :: others), taken)

/-- The members of a class in the order in which their uses are renamed: the fields, then the
methods, each map in the order in which it is visited. -/
def RenamedClass.membersIn (order : MapOrder) (renamed : RenamedClass) : NewNames :=
  order.visit renamed.fields ++ order.visit renamed.methods

/-- Rename one member where it stands behind the name of its class. -/
def renameQualified (className old new : Text) (source : Text) : Text :=
  Pattern.replaceAll (Pattern.wholeWord (className ++ "." ++ old))
    (fun _ => className ++ "." ++ new) source

/-- Rename all members of a class where they stand behind its name. -/
def renameMembersOf (order : MapOrder) (renamed : RenamedClass) (source : Text) : Text :=
  (renamed.membersIn order).foldl
    (fun text (old, new) => renameQualified renamed.className old new text) source

/-- Renamed classes with the uses of their members in each other renamed as well. -/
def renameUses (order : MapOrder) (renamed : List RenamedClass) : List RenamedClass :=
  renamed.map fun one => { one with
    source := renamed.foldl (fun text other => renameMembersOf order other text) one.source }

/-- Why the patterns for the members of some classes cannot be compiled. -/
def patternError? (renamer : Renamer) (renamed : List RenamedClass) : Option Text :=
  renamed.findSome? fun one => (one.membersIn renamer.order).findSome? fun (old, _) =>
    renamer.wordError? (one.className ++ "." ++ old)

/-- Rename several classes with the uses of their members in each other. -/
def renameAll (renamer : Renamer) (taken : List Text) (classes : List (Text × Text)) :
    Except RewriteError (List RenamedClass) × List Text :=
  match renameSeparately renamer.parser taken classes with
  | (.error error, taken) => (.error error, taken)
  | (.ok renamed, taken) =>
    match patternError? renamer renamed with
    | some reason => (.error (.pattern reason), taken)
    | none => (.ok (renameUses renamer.order renamed), taken)

end Unpacking.Renaming
