import Unpacking.Toml.Value

/-!
The document of a TOML text.
-/

namespace Unpacking.Toml

open Text

/-- Whether a character may stand in a key without quotes. -/
def isKeyCharacter (c : Char) : Bool :=
  c.isAlphanum || c == '_' || c == '-'

/-- One part of a key. -/
def keyPart? (text : Text) : Option (Text × Text) :=
  match text with
  | c :: _ =>
    if c == '"' || c == '\'' then lineString? text
    else
      let found := text.takeWhile isKeyCharacter
      if found.isEmpty then none else some (found, text.drop found.length)
  | [] => none

/-- A key of parts with dots between them. -/
def keyUpTo : Nat → Text → Option (List Text × Text)
  | 0, _ => none
  | limit + 1, text => do
    let (part, rest) ← keyPart? (text.dropWhile isSpace)
    match rest.dropWhile isSpace with
    | '.' :: behind => do
      let (more, rest) ← keyUpTo limit behind
      pure (part :: more, rest)
    | rest => some ([part], rest)

/-- A key with the blanks around it. -/
def key? (text : Text) : Option (List Text × Text) :=
  keyUpTo (text.length + 1) text

/-- The text behind a comment. -/
def afterComment? (text : Text) : Option Text :=
  match text with
  | '#' :: rest =>
    let behind := rest.dropWhile isPlain
    if behind.isEmpty || (afterNewline? behind).isSome then some behind else none
  | _ => some text

/-- The text behind blanks, comments and line ends. -/
def afterTriviaUpTo : Nat → Text → Option Text
  | 0, text => some text
  | limit + 1, text => do
    let rest ← afterComment? (text.dropWhile isSpace)
    match afterNewline? rest with
    | some rest => afterTriviaUpTo limit rest
    | none => some rest

/-- The text behind blanks, comments and line ends. -/
def afterTrivia? (text : Text) : Option Text :=
  afterTriviaUpTo text.length text

/-- A reader of values. -/
abbrev ValueReader := Text → Option (Value × Text)

/-- The items of an array, behind its bracket or a comma. -/
def itemsUpTo (value : ValueReader) : Nat → Text → Option (List Value × Text)
  | 0, _ => none
  | limit + 1, text => do
    let rest ← afterTrivia? text
    match rest with
    | ']' :: rest => some ([], rest)
    | _ => do
      let (item, rest) ← value rest
      let rest ← afterTrivia? rest
      match rest with
      | ',' :: rest => do
        let (items, rest) ← itemsUpTo value limit rest
        pure (item :: items, rest)
      | ']' :: rest => some ([item], rest)
      | _ => none

/-- The value behind a key and an equals sign. -/
def keyValue? (value : ValueReader) (text : Text) : Option (List Text × Value × Text) := do
  let (key, rest) ← key? text
  let rest ← after? "=" rest
  let (found, rest) ← value (rest.dropWhile isSpace)
  pure (key, found, rest)

/-- The path and the name of a key. -/
def splitKey (key : List Text) : List Text × Text :=
  (key.dropLast, key.getLast?.getD [])

/-- The entries of a table in braces, behind its brace or a comma. -/
def inlineUpTo (value : ValueReader) : Nat → Entries → Text → Option (Entries × Text)
  | 0, _, _ => none
  | limit + 1, entries, text => do
    let (key, found, rest) ← keyValue? value text
    let (path, name) := splitKey key
    let entries ← insert path name found .header entries
    match rest.dropWhile isSpace with
    | ',' :: rest => inlineUpTo value limit entries rest
    | '}' :: rest => some (entries, rest)
    | _ => none

/-- A number or a time. -/
def numeric? (text : Text) : Option (Value × Text) :=
  match datetime? text with
  | some rest => some (.datetime, rest)
  | none =>
    match float? text with
    | some rest => some (.float, rest)
    | none => (integer? text).map fun (value, rest) => (.integer value, rest)

/-- A value, for values that are nested at most `limit` deep. -/
def valueUpTo : Nat → ValueReader
  | 0, _ => none
  | limit + 1, text =>
    match text with
    | [] => none
    | '[' :: rest =>
      (itemsUpTo (valueUpTo limit) text.length rest).map fun (items, rest) => (.array items, rest)
    | '{' :: rest =>
      match rest.dropWhile isSpace with
      | '}' :: rest => some (.table .inline [], rest)
      | rest =>
        (inlineUpTo (valueUpTo limit) text.length [] rest).map fun (entries, rest) =>
          (.table .inline entries, rest)
    | c :: _ =>
      if c == '"' || c == '\'' then (string? text).map fun (found, rest) => (.text found, rest)
      else if begins "true" text then some (.boolean true, text.drop 4)
      else if begins "false" text then some (.boolean false, text.drop 5)
      else numeric? text

/-- What stands on a line, with the text behind it. -/
inductive Statement where
  | blank
  | header (path : List Text)
  | element (path : List Text)
  | entry (key : List Text) (value : Value)

/-- The statement at the front of a text. -/
def statement? (text : Text) : Option (Statement × Text) :=
  match text with
  | '[' :: '[' :: rest => do
    let (key, rest) ← key? rest
    let rest ← after? "]]" rest
    pure (.element key, rest)
  | '[' :: rest => do
    let (key, rest) ← key? rest
    let rest ← after? "]" rest
    pure (.header key, rest)
  | [] => some (.blank, [])
  | c :: _ =>
    if c == '#' || (afterNewline? text).isSome then some (.blank, text)
    else do
      let (key, value, rest) ← keyValue? (valueUpTo text.length) text
      pure (.entry key value, rest)

/-- The state while a document is read: its entries, and the header that is open. -/
structure Progress where
  entries : Entries := []
  header : List Text := []

/-- Follow a statement. -/
def Progress.follow (progress : Progress) : Statement → Option Progress
  | .blank => some progress
  | .header key => do
    let (path, name) := splitKey key
    let entries ← openTable path name progress.entries
    pure { entries, header := key }
  | .element key => do
    let (path, name) := splitKey key
    let entries ← openElement path name progress.entries
    pure { entries, header := key }
  | .entry key value => do
    let (path, name) := splitKey key
    let entries ← insertBelow progress.header path name value progress.entries
    pure { progress with entries }

/-- Read line after line. A statement takes its line alone. -/
def documentUpTo : Nat → Progress → Text → Option Progress
  | 0, progress, _ => some progress
  | limit + 1, progress, text => do
    let (found, rest) ← statement? (text.dropWhile isSpace)
    let progress ← progress.follow found
    let rest ← afterComment? (rest.dropWhile isSpace)
    if rest.isEmpty then some progress
    else
      let rest ← afterNewline? rest
      documentUpTo limit progress rest

/-- A text without the byte order mark at its beginning. -/
def withoutMark : Text → Text
  | [] => []
  | c :: rest => if c.toNat == 0xFEFF then rest else c :: rest

/-- The entries of a TOML text. -/
def parse (text : Text) : Option Entries :=
  (documentUpTo (text.length + 1) {} (withoutMark text)).map Progress.entries

end Unpacking.Toml
