import Unpacking.Text.Blank

/-!
The vocabulary of reflection, and the occurrence of a term on a line: between delimiters or the
ends of the line, so that it is not a part of a longer name.
-/

namespace Unpacking.Reflection

open Text

/-- The names that reach code or context at run time. -/
def vocabulary : List Text :=
  ["getMethod", "getDeclaredMethod", "invoke", "getField", "getDeclaredField", "setAccessible",
    "forName", "newInstance", "WeakReference", "getApplicationContext"]

/-- The characters that may stand on either side of a term. -/
def isDelimiter (c : Char) : Bool :=
  isBlank c || ("[].()!=,+;?:" : Text).contains c

/-- A term stands at the front of a text, with a delimiter or the end behind it. -/
def standsAt (term text : Text) : Bool :=
  match after? term text with
  | some (c :: _) => isDelimiter c
  | some [] => true
  | none => false

/-- A term stands behind some delimiter of a text. -/
def standsBehind (term : Text) : Text → Bool
  | [] => false
  | c :: rest => (isDelimiter c && standsAt term rest) || standsBehind term rest

/-- A term occurs in a text, at its beginning or behind a delimiter. -/
def occurs (term text : Text) : Bool :=
  standsAt term text || standsBehind term text

end Unpacking.Reflection
