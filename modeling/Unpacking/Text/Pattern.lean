import Unpacking.Text.Blank
import Unpacking.Text.WordCharacter

/-!
Patterns that are searched in a text. A pattern looks at one place: it sees the character before
the place and the text from the place on, and tells how many characters of it match. The leftmost
match counts, and the search goes on behind it.
-/

namespace Unpacking.Text

/-- The number of characters that match at a place, given the character before it. -/
abbrev Pattern := Option Char → Text → Option Nat

/-- The last character of a matched text, or the character before it if nothing was matched. -/
def lastOr (before : Option Char) (matched : Text) : Option Char :=
  match matched.getLast? with
  | some c => some c
  | none => before

namespace Pattern

/-- A pattern that looks at the text alone and gives the rest behind its match. -/
def ofReader (reader : Text → Option Text) : Pattern := fun _ text =>
  (reader text).map fun rest => text.length - rest.length

/-- A given text. -/
def literal (word : Text) : Pattern :=
  ofReader (after? word)

/-- A match that begins at a word boundary. -/
def atBoundary (pattern : Pattern) : Pattern := fun before text =>
  if isBoundary before text.head? then pattern before text else none

/-- A match that ends at a word boundary. -/
def toBoundary (pattern : Pattern) : Pattern := fun before text =>
  match pattern before text with
  | some size =>
    if isBoundary (lastOr before (text.take size)) (text.drop size).head? then some size else none
  | none => none

/-- A given text between word boundaries. -/
def wholeWord (word : Text) : Pattern :=
  toBoundary (atBoundary (literal word))

/-- The first pattern that matches at the place. -/
def orElse (first second : Pattern) : Pattern := fun before text =>
  match first before text with
  | some size => some size
  | none => second before text

/-- Whether the pattern matches somewhere from here on. -/
def occurs (pattern : Pattern) (before : Option Char) : Text → Bool
  | [] => (pattern before []).isSome
  | c :: rest => (pattern before (c :: rest)).isSome || occurs pattern (some c) rest

/-- Replace the matches from here on; the first `skip` characters belong to a match already
replaced. -/
def replaceFrom (pattern : Pattern) (replacement : Text → Text) :
    Nat → Option Char → Text → Text
  | _, before, [] =>
    match pattern before [] with
    | some _ => replacement []
    | none => []
  | skip + 1, _, c :: rest => replaceFrom pattern replacement skip (some c) rest
  | 0, before, c :: rest =>
    match pattern before (c :: rest) with
    | some (size + 1) =>
      replacement (c :: rest.take size) ++ replaceFrom pattern replacement size (some c) rest
    | some 0 => replacement [] ++ c :: replaceFrom pattern replacement 0 (some c) rest
    | none => c :: replaceFrom pattern replacement 0 (some c) rest

/-- Replace every match by a function of the matched text. -/
def replaceAll (pattern : Pattern) (replacement : Text → Text) (text : Text) : Text :=
  replaceFrom pattern replacement 0 none text

/-- Count the matches from here on; the first `skip` characters belong to a match already
counted. -/
def countFrom (pattern : Pattern) : Nat → Option Char → Text → Nat
  | _, before, [] => if (pattern before []).isSome then 1 else 0
  | skip + 1, _, c :: rest => countFrom pattern skip (some c) rest
  | 0, before, c :: rest =>
    match pattern before (c :: rest) with
    | some (size + 1) => 1 + countFrom pattern size (some c) rest
    | some 0 => 1 + countFrom pattern 0 (some c) rest
    | none => countFrom pattern 0 (some c) rest

/-- The number of matches that do not overlap, from left to right. -/
def count (pattern : Pattern) (text : Text) : Nat :=
  countFrom pattern 0 none text

/-- Replace the first match from here on. -/
def replaceFirstFrom (pattern : Pattern) (replacement : Text) (before : Option Char) :
    Text → Text
  | [] => if (pattern before []).isSome then replacement else []
  | c :: rest =>
    match pattern before (c :: rest) with
    | some size => replacement ++ (c :: rest).drop size
    | none => c :: replaceFirstFrom pattern replacement (some c) rest

/-- Replace the leftmost match. -/
def replaceFirst (pattern : Pattern) (replacement : Text) (text : Text) : Text :=
  replaceFirstFrom pattern replacement none text

end Pattern

end Unpacking.Text
