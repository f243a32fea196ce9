import Unpacking.Number.Decimal

/-!
Documents of named and listed values, and their indented text.
-/

namespace Unpacking

open Text

/-- A document. -/
inductive Json where
  | null
  | boolean (value : Bool)
  | natural (value : Nat)
  /-- A number that is given by its text. -/
  | number (text : Text)
  | string (text : Text)
  | array (items : List Json)
  /-- Values by name, in the order in which they are written. -/
  | object (members : List (Text × Json))

namespace Json

/-- The two lowest hexadecimal digits of a number. -/
def hexadecimal (number : Nat) : Text :=
  [Nat.digitChar (number / 16 % 16), Nat.digitChar (number % 16)]

/-- A character inside a string. Quotes, backslashes and control characters are escaped. -/
def escape (c : Char) : Text :=
  if c == '"' then "\\\""
  else if c == '\\' then "\\\\"
  else if c == '\n' then "\\n"
  else if c == '\r' then "\\r"
  else if c == '\t' then "\\t"
  else if c.toNat == 8 then "\\b"
  else if c.toNat == 12 then "\\f"
  else if c.toNat < 32 then "\\u00" ++ hexadecimal c.toNat
  else [c]

/-- A string in quotes. -/
def quoted (text : Text) : Text :=
  "\"" ++ text.flatMap escape ++ "\""

/-- The beginning of a line at a depth of indentation. -/
def newLine (depth : Nat) : Text :=
  '\n' :: List.replicate (2 * depth) ' '

mutual

/-- The indented text of a document that stands at a depth. -/
def render (depth : Nat) : Json → Text
  | .null => "null"
  | .boolean value => if value then "true" else "false"
  | .natural value => Decimal.ofNat value
  | .number text => text
  | .string text => quoted text
  | .array items =>
    if items.isEmpty then "[]"
    else "[" ++ renderItems (depth + 1) items ++ newLine depth ++ "]"
  | .object members =>
    if members.isEmpty then "\x7b\x7d"
    else "\x7b" ++ renderMembers (depth + 1) members ++ newLine depth ++ "\x7d"

/-- The items of a list, each on lines of its own. -/
def renderItems (depth : Nat) : List Json → Text
  | [] => []
  | [item] => newLine depth ++ render depth item
  | item :: rest => newLine depth ++ render depth item ++ "," ++ renderItems depth rest

/-- The members of an object, each on lines of its own. -/
def renderMembers (depth : Nat) : List (Text × Json) → Text
  | [] => []
  | [(name, value)] => newLine depth ++ quoted name ++ ": " ++ render depth value
  | (name, value) :: rest =>
    newLine depth ++ quoted name ++ ": " ++ render depth value ++ "," ++ renderMembers depth rest

end

/-- The indented text of a document. -/
def pretty (document : Json) : Text :=
  render 0 document

/-- A list of strings. -/
def strings (texts : List Text) : Json :=
  .array (texts.map .string)

/-- A string or nothing. -/
def optional : Option Text → Json
  | some text => .string text
  | none => .null

end Json

end Unpacking
