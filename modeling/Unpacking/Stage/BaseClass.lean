import Unpacking.Line.Basic
import Unpacking.Text.Pattern
import Unpacking.Text.Reading

/-!
Separation of a class from its platform base class: the `extends` clause, the notes on overridden
platform methods and the calls of the superclass.
-/

namespace Unpacking.Stage

open Text

/-- The text behind an `extends` clause of the application base class. -/
def extendsApplication? (text : Text) : Option Text := do
  let rest ← afterBlanks? text
  let rest ← after? "extends" rest
  let rest ← afterBlanks? rest
  after? "Application" ((after? "android.app." rest).getD rest)

/-- An `extends` clause of the application base class, with the blanks before it. -/
def extendsClause : Pattern :=
  Pattern.toBoundary (Pattern.ofReader extendsApplication?)

/-- The text behind a note that a method overrides one of the platform. -/
def overrideNote? (text : Text) : Option Text := do
  let rest ← after? "@Override" text
  let rest ← after? "//" (trimStart rest)
  let rest ← after? "android" (trimStart rest)
  pure (rest.dropWhile fun c => isWord c || c == '.')

/-- A line that holds a platform override note and nothing else. -/
def isOverrideNote (line : Line) : Bool :=
  match overrideNote? (trimStart line) with
  | some rest => (trimStart rest).isEmpty
  | none => false

/-- A line without the first `extends` clause and the first override note on it. -/
def withoutBaseClass (line : Line) : Line :=
  (Pattern.ofReader overrideNote?).replaceFirst [] (extendsClause.replaceFirst [] line)

/-- Drop the `extends` clause of the application base class and the platform override notes. -/
def stripBaseClass (text : Text) : Text :=
  overLines
    (fun lines => (lines.filter fun line => !isOverrideNote line).map withoutBaseClass) text

/-- The trailer of a superclass call that was commented out. -/
def superclassMarker : Text :=
  "// Unboxer: Remove superclass reference"

/-- The text behind the method name of a superclass call, if there is one. -/
def afterMember (text : Text) : Text :=
  match text with
  | '.' :: name =>
    match run? isWord name with
    | some (_, rest) => rest
    | none => text
  | _ => text

/-- A line that begins with a call of a superclass method or constructor. -/
def isSuperclassCall (line : Line) : Bool :=
  match after? "super" (trimStart line) with
  | some rest => begins "(" (trimStart (afterMember rest))
  | none => false

/-- A line with its call of the superclass commented out. -/
def withoutSuperclassCall (line : Line) : Line :=
  if isSuperclassCall line then
    indentation line ++ "// " ++ trimStart line ++ " " ++ superclassMarker
  else line

/-- Comment out the calls of the superclass. -/
def commentSuperclassCalls (text : Text) : Text :=
  mapLines withoutSuperclassCall text

end Unpacking.Stage
