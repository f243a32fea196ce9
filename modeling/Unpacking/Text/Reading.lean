import Unpacking.Text.Blank
import Unpacking.Text.WordCharacter

/-!
Readers take something off the front of a text. Where a reader repeats, every number of
repetitions is kept, so that a caller can give back items one at a time.
-/

namespace Unpacking.Text

/-- The ways to read up to `limit` items off the front, the most items first. -/
def repeatsUpTo {α : Type} (item : Text → Option (α × Text)) : Nat → Text → List (List α × Text)
  | 0, text => [([], text)]
  | limit + 1, text =>
    match item text with
    | none => [([], text)]
    | some (first, rest) =>
      ((repeatsUpTo item limit rest).map fun (items, rest) => (first :: items, rest)) ++
        [([], text)]

/-- The ways to read items off the front, the most items first. Each item takes a character at
least, so the length of the text bounds their number. -/
def repeats {α : Type} (item : Text → Option (α × Text)) (text : Text) : List (List α × Text) :=
  repeatsUpTo item text.length text

/-- The text behind as many items as there are. -/
def afterItems {α : Type} (item : Text → Option (α × Text)) (text : Text) : Text :=
  match repeats item text with
  | (_, rest) :: _ => rest
  | [] => text

/-- A non-empty run of characters of a class, and the rest. -/
def run? (inClass : Char → Bool) (text : Text) : Option (Text × Text) :=
  match text.takeWhile inClass with
  | [] => none
  | c :: more => some (c :: more, text.dropWhile inClass)

/-- One of some words followed by a blank, and the text behind the blanks. -/
def oneOf? (words : List Text) (text : Text) : Option (Text × Text) :=
  words.findSome? fun word => do
    let rest ← after? word text
    let rest ← afterBlanks? rest
    pure (word, rest)

/-- The splits of a text right behind a `>` that is reached over allowed characters, the longest
first. -/
def closings (allowed : Char → Bool) : Text → List (Text × Text)
  | [] => []
  | c :: rest =>
    let longer :=
      if allowed c then (closings allowed rest).map fun (left, right) => (c :: left, right) else []
    if c = '>' then longer ++ [([c], rest)] else longer

/-- The text behind any number of empty bracket pairs. -/
def afterBrackets : Text → Text
  | '[' :: ']' :: rest => afterBrackets rest
  | text => text

end Unpacking.Text
