import Unpacking.Text.Blank

/-!
Assignments on a line: a name, an equals sign and something other than a second equals sign.
-/

namespace Unpacking.Reflection

open Text

/-- The characters of an assigned name. -/
def isVariableCharacter (c : Char) : Bool :=
  c.isAlphanum || c == '_' || c == '$'

/-- An assigned name, and the text behind the equals sign. -/
structure Assignment where
  name : Text
  value : Text
deriving DecidableEq, Repr

/-- The assignment at the front of a text. -/
def assignmentAt? (text : Text) : Option Assignment :=
  let name := text.takeWhile isVariableCharacter
  match name, trimStart (text.dropWhile isVariableCharacter) with
  | _ :: _, '=' :: c :: rest => if c == '=' then none else some { name, value := c :: rest }
  | _, _ => none

/-- The leftmost assignment of a text. -/
def assignment? : Text → Option Assignment
  | [] => none
  | c :: rest =>
    match assignmentAt? (c :: rest) with
    | some found => some found
    | none => assignment? rest

/-- Values are read from a byte offset one byte behind the equals sign; a value that begins with a
character of more than one byte cannot be read from there. -/
def Assignment.isReadable (assignment : Assignment) : Bool :=
  match assignment.value with
  | c :: _ => c.utf8Size == 1
  | [] => true

end Unpacking.Reflection
