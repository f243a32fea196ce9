import Unpacking.Text.Basic

/-!
Attributes of a markup element. The reader is lenient: an attribute that is not well formed is
passed over, and reading goes on behind it where that is possible.
-/

namespace Unpacking.Markup

open Text

/-- The white space of markup. -/
def isSpace (c : Char) : Bool :=
  c == ' ' || c == '\t' || c == '\r' || c == '\n'

/-- An attribute with its value as written. -/
structure Attribute where
  key : Text
  value : Text
deriving DecidableEq, Repr

/-- What stands at the front of an attribute list. -/
inductive Item where
  /-- Nothing more can be read. -/
  | done
  /-- Something that is no attribute; reading goes on at the rest. -/
  | skip (seen : List Text) (rest : Text)
  /-- An attribute; reading goes on at the rest. -/
  | found (entry : Attribute) (seen : List Text) (rest : Text)

/-- Pass over a value that cannot be read, up to the next white space. -/
def skipValue (seen : List Text) (text : Text) : Item :=
  match text.dropWhile (!isSpace ·) with
  | [] => .done
  | rest => .skip seen rest

/-- The value behind an equals sign, for a key that was not seen before. -/
def readValue (seen : List Text) (key text : Text) : Item :=
  match text.dropWhile isSpace with
  | [] => .done
  | quote :: rest =>
    if quote == '"' || quote == '\'' then
      match cut? quote rest with
      | some (value, rest) => .found { key, value } seen rest
      | none => .done
    else skipValue seen (quote :: rest)

/-- The item at the front of an attribute list, given the keys seen before. -/
def readItem (seen : List Text) (text : Text) : Item :=
  match text.dropWhile isSpace with
  | [] => .done
  | first :: rest =>
    let key := first :: rest.takeWhile fun c => c != '=' && !isSpace c
    match (rest.dropWhile fun c => c != '=' && !isSpace c).dropWhile isSpace with
    | [] => .done
    | c :: behind =>
      if c != '=' then .skip seen (c :: behind)
      else if seen.contains key then skipValue seen (c :: behind)
      else readValue (key :: seen) key behind

/-- The attributes of at most `limit` items. -/
def attributesUpTo : Nat → List Text → Text → List Attribute
  | 0, _, _ => []
  | limit + 1, seen, text =>
    match readItem seen text with
    | .done => []
    | .skip seen rest => attributesUpTo limit seen rest
    | .found entry seen rest => entry :: attributesUpTo limit seen rest

/-- The attributes of an attribute list. Each item takes a character at least, so the length of
the list bounds their number. -/
def attributes (text : Text) : List Attribute :=
  attributesUpTo text.length [] text

end Unpacking.Markup
