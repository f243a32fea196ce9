import Unpacking.Text.Basic

/-!
A place in a YAML text, and the blanks that are folded between the words of a scalar.
-/

namespace Unpacking.Yaml

open Text

/-- Whether a character ends a line. Other line ends are normalised before. -/
def isBreak (c : Char) : Bool :=
  c == '\n' || c.toNat == 0x2028 || c.toNat == 0x2029

/-- Whether a character is a space or a tab. -/
def isSpace (c : Char) : Bool :=
  c == ' ' || c == '\t'

/-- Whether a text begins with a blank or a line end, or has ended. -/
def beginsBlank : Text → Bool
  | [] => true
  | c :: _ => isSpace c || isBreak c

/-- A place in a text, and the text from there on. -/
structure Cursor where
  line : Nat := 0
  column : Nat := 0
  index : Nat := 0
  rest : Text
deriving DecidableEq, Repr

namespace Cursor

/-- The cursor behind the next character. -/
def next (cursor : Cursor) : Cursor :=
  match cursor.rest with
  | [] => cursor
  | c :: rest =>
    if isBreak c then
      { line := cursor.line + 1, column := 0, index := cursor.index + 1, rest }
    else { cursor with column := cursor.column + 1, index := cursor.index + 1, rest }

/-- The cursor a number of characters further. -/
def skip (count : Nat) (cursor : Cursor) : Cursor :=
  Nat.rec cursor (fun _ reached => reached.next) count

/-- Whether a mark between documents stands here. -/
def atDocumentMark (cursor : Cursor) : Bool :=
  cursor.column == 0 && (begins "---" cursor.rest || begins "..." cursor.rest) &&
    beginsBlank (cursor.rest.drop 3)

end Cursor

/-- The blanks behind a word, on their way to be folded. -/
structure Fold where
  /-- Whether a line has ended. -/
  broken : Bool := false
  /-- The blanks on the line of the word. -/
  spaces : Text := []
  /-- The first line end. -/
  lineEnd : Text := []
  /-- The further line ends. -/
  emptyLines : Text := []
deriving DecidableEq, Repr

namespace Fold

/-- One more space or line end. Spaces at the beginning of a line do not count. -/
def add (fold : Fold) (c : Char) : Fold :=
  if isBreak c then
    if fold.broken then { fold with emptyLines := fold.emptyLines ++ [c] }
    else { broken := true, lineEnd := [c] }
  else if fold.broken then fold
  else { fold with spaces := fold.spaces ++ [c] }

/-- What the blanks amount to between two words: one line end becomes a space, and of several the
first one is dropped. -/
def text (fold : Fold) : Text :=
  if !fold.broken then fold.spaces
  else if begins "\n" fold.lineEnd then
    if fold.emptyLines.isEmpty then [' '] else fold.emptyLines
  else fold.lineEnd ++ fold.emptyLines

end Fold

end Unpacking.Yaml
