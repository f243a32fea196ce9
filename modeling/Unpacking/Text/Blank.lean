import Unpacking.Text.Basic

/-!
Blank characters, and texts without their surrounding blanks.
-/

namespace Unpacking.Text

/-- A blank is a character with the white-space property. -/
def isBlank (c : Char) : Bool :=
  let code := c.toNat
  (9 ≤ code && code ≤ 13) || code == 0x20 || code == 0x85 || code == 0xA0 || code == 0x1680 ||
    (0x2000 ≤ code && code ≤ 0x200A) || code == 0x2028 || code == 0x2029 || code == 0x202F ||
    code == 0x205F || code == 0x3000

/-- A text from its first non-blank character on. -/
def trimStart (text : Text) : Text :=
  text.dropWhile isBlank

/-- A text up to its last non-blank character. -/
def trimEnd (text : Text) : Text :=
  (text.reverse.dropWhile isBlank).reverse

/-- A text without its surrounding blanks. -/
def trim (text : Text) : Text :=
  trimEnd (trimStart text)

/-- The blanks a text begins with. -/
def indentation (text : Text) : Text :=
  text.takeWhile isBlank

/-- The maximal non-blank parts of a text. -/
def words (text : Text) : List Text :=
  (fields isBlank text).filter fun word => !word.isEmpty

/-- The rest of a text after at least one blank. -/
def afterBlanks? : Text → Option Text
  | [] => none
  | c :: rest => if isBlank c then some (trimStart rest) else none

end Unpacking.Text
