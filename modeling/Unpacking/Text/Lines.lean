import Unpacking.Text.Basic

/-!
Lines of a text. A line ends at a line feed, together with one carriage return right before it.
-/

namespace Unpacking

/-- A line is a text; it holds no line feed when it comes from `Text.lines`. -/
abbrev Line := Text

namespace Text

/-- The lines of a text; a final line feed opens no further line. -/
def lines : Text → List Line
  | [] => []
  | '\n' :: rest => [] :: lines rest
  | '\r' :: '\n' :: rest => [] :: lines rest
  | c :: rest =>
    match lines rest with
    | [] => [[c]]
    | line :: more => (c :: line) :: more

/-- Whether the last character is a line feed. -/
def endsWithNewline (text : Text) : Bool :=
  text.getLast? == some '\n'

/-- Lines as one text; the last line is closed by a line feed on request. -/
def unlines (lines : List Line) (closed : Bool) : Text :=
  join ['\n'] lines ++ if closed && !lines.isEmpty then ['\n'] else []

/-- Replace the list of lines, and keep the state of the last line. -/
def overLines (change : List Line → List Line) (text : Text) : Text :=
  unlines (change (lines text)) (endsWithNewline text)

/-- Replace each line on its own. -/
def mapLines (change : Line → Line) (text : Text) : Text :=
  overLines (List.map change) text

end Text

end Unpacking
