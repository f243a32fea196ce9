import Unpacking.Text.Blank
import Unpacking.Text.Lines

/-!
What a single line of Java source tells without its neighbours: whether it is a comment or an
import, and how it moves the brace depth.
-/

namespace Unpacking.Line

open Text

/-- A line that begins with two slashes after its indentation. -/
def isLineComment (line : Line) : Bool :=
  begins "//" (trimStart line)

/-- A comment line, a line of a block comment, or an import. -/
def isCommentOrImport (line : Line) : Bool :=
  let start := trimStart line
  begins "//" start || begins "/*" start || begins "*" start ||
    begins "import " start

/-- The step of one character on the brace depth. -/
def braceStep (c : Char) : Int :=
  if c = '{' then 1 else if c = '}' then -1 else 0

/-- The net brace balance of a line; braces in literals count too. -/
def braceBalance (line : Line) : Int :=
  line.foldr (fun c balance => braceStep c + balance) 0

/-- The final and the lowest brace depth of a line that starts at a given depth with a given
lowest depth so far. -/
def braceScan (depth lowest : Int) : Line → Int × Int
  | [] => (depth, lowest)
  | c :: rest =>
    let depth := depth + braceStep c
    braceScan depth (min lowest depth) rest

/-- The closing braces without an opener, and the openers left unclosed. -/
def unmatchedBraces (line : Line) : Nat × Nat :=
  let (depth, lowest) := braceScan 0 0 line
  ((-lowest).toNat, (depth - lowest).toNat)

end Unpacking.Line
