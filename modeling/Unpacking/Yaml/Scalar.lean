import Unpacking.Yaml.Cursor

/-!
The scalars of YAML: plain, in quotes, and as blocks of lines.
-/

namespace Unpacking.Yaml

open Text

/-- Whether a plain scalar ends before a character that is not blank. -/
def endsPlain (flow : Bool) (text : Text) : Bool :=
  match text with
  | [] => true
  | c :: rest =>
    (c == ':' && beginsBlank rest) || (flow && [',', '[', ']', '{', '}'].contains c)

/-- Whether a colon stands where it can neither end nor continue a plain scalar. -/
def isStrayColon (flow : Bool) : Text → Bool
  | ':' :: c :: _ => flow && [',', '?', '[', ']', '{', '}'].contains c
  | _ => false

/-- What ends a plain scalar behind blanks: too little indentation, a mark between documents, or a
comment. -/
def endsBehindBlanks (flow : Bool) (indent : Int) (cursor : Cursor) : Bool :=
  (!flow && (cursor.column : Int) < indent) || cursor.atDocumentMark || begins "#" cursor.rest

/-- A plain scalar, and the cursor behind it; the flag tells whether a line has ended behind the
last word. -/
def plainUpTo (flow : Bool) (indent : Int) :
    Nat → Bool → Fold → Cursor → Option (Text × Bool × Cursor)
  | 0, _, fold, cursor => some ([], fold.broken, cursor)
  | limit + 1, behindBlanks, fold, cursor =>
    match cursor.rest with
    | [] => some ([], fold.broken, cursor)
    | c :: _ =>
      if isSpace c || isBreak c then
        if fold.broken && c == '\t' && (cursor.column : Int) < indent then none
        else plainUpTo flow indent limit true (fold.add c) cursor.next
      else if behindBlanks && endsBehindBlanks flow indent cursor then
        some ([], fold.broken, cursor)
      else if isStrayColon flow cursor.rest then none
      else if endsPlain flow cursor.rest then some ([], fold.broken, cursor)
      else
        match plainUpTo flow indent limit false {} cursor.next with
        | none => none
        | some (more, broken, cursor) => some (fold.text ++ c :: more, broken, cursor)

/-- A plain scalar. -/
def plain (flow : Bool) (indent : Int) (cursor : Cursor) : Option (Text × Bool × Cursor) :=
  plainUpTo flow indent cursor.rest.length false {} cursor

/-- The value of a hexadecimal digit. -/
def hexadecimalValue? (c : Char) : Option Nat :=
  if c.isDigit then some (c.toNat - '0'.toNat)
  else if 'a' ≤ c ∧ c ≤ 'f' then some (c.toNat - 'a'.toNat + 10)
  else if 'A' ≤ c ∧ c ≤ 'F' then some (c.toNat - 'A'.toNat + 10)
  else none

/-- The character that a number of hexadecimal digits stand for. -/
def coded? (count : Nat) (text : Text) : Option Char := do
  let digits := text.take count
  if digits.length < count then none
  else
    let value ← digits.foldlM (fun value c => do
      let digit ← hexadecimalValue? c
      pure (16 * value + digit)) 0
    if value < 0xD800 || (0xE000 ≤ value && value ≤ 0x10FFFF) then some (Char.ofNat value)
    else none

/-- The character that an escape stands for, and the number of characters behind the backslash. -/
def escaped? : Text → Option (Char × Nat)
  | [] => none
  | c :: rest =>
    match c with
    | '0' => some (Char.ofNat 0, 1)
    | 'a' => some (Char.ofNat 7, 1)
    | 'b' => some (Char.ofNat 8, 1)
    | 't' => some ('\t', 1)
    | '\t' => some ('\t', 1)
    | 'n' => some ('\n', 1)
    | 'v' => some (Char.ofNat 11, 1)
    | 'f' => some (Char.ofNat 12, 1)
    | 'r' => some ('\r', 1)
    | 'e' => some (Char.ofNat 27, 1)
    | ' ' => some (' ', 1)
    | '"' => some ('"', 1)
    | '/' => some ('/', 1)
    | '\\' => some ('\\', 1)
    | 'N' => some (Char.ofNat 0x85, 1)
    | '_' => some (Char.ofNat 0xA0, 1)
    | 'L' => some (Char.ofNat 0x2028, 1)
    | 'P' => some (Char.ofNat 0x2029, 1)
    | 'x' => (coded? 2 rest).map fun decoded => (decoded, 3)
    | 'u' => (coded? 4 rest).map fun decoded => (decoded, 5)
    | 'U' => (coded? 8 rest).map fun decoded => (decoded, 9)
    | _ => none

/-- What a quoted scalar goes on with. -/
inductive QuotedStep where
  | close
  /-- A character, written with a number of characters. -/
  | character (c : Char) (size : Nat)
  /-- A line end that does not count. -/
  | hiddenBreak

/-- What a quoted scalar goes on with at a character that is not blank. -/
def quotedStep? (single : Bool) (text : Text) : Option QuotedStep :=
  match text with
  | [] => none
  | c :: rest =>
    if single then
      if c == '\'' then
        if begins "'" rest then some (.character c 2) else some .close
      else some (.character c 1)
    else if c == '"' then some .close
    else if c == '\\' then
      match rest with
      | [] => none
      | following :: _ =>
        if isBreak following then some .hiddenBreak
        else (escaped? rest).map fun (decoded, size) => .character decoded (size + 1)
    else some (.character c 1)

/-- The rest of a quoted scalar, and the cursor behind its closing quote. -/
def quotedUpTo (single : Bool) : Nat → Bool → Fold → Cursor → Option (Text × Cursor)
  | 0, _, _, _ => none
  | limit + 1, behindBlanks, fold, cursor =>
    match cursor.rest with
    | [] => none
    | c :: _ =>
      if isSpace c || isBreak c then quotedUpTo single limit true (fold.add c) cursor.next
      else if behindBlanks && cursor.atDocumentMark then none
      else
        match quotedStep? single cursor.rest with
        | none => none
        | some .close => some (fold.text, cursor.next)
        | some (.character decoded size) =>
          match quotedUpTo single limit false {} (cursor.skip size) with
          | none => none
          | some (more, cursor) => some (fold.text ++ decoded :: more, cursor)
        | some .hiddenBreak =>
          match quotedUpTo single limit true { broken := true } (cursor.skip 2) with
          | none => none
          | some (more, cursor) => some (fold.text ++ more, cursor)

/-- A quoted scalar from its opening quote on. -/
def quoted (single : Bool) (cursor : Cursor) : Option (Text × Cursor) :=
  quotedUpTo single cursor.rest.length true {} cursor.next

/-- What happens to the line ends at the end of a block. -/
inductive Chomping where
  | clip
  | strip
  | keep
deriving DecidableEq, Repr

/-- The header of a block. -/
structure BlockHeader where
  chomping : Chomping := .clip
  /-- The indentation beyond that of the surrounding block, if it is given. -/
  increment : Option Nat := none
deriving DecidableEq, Repr

/-- Read the chomping mark of a header, if there is one. -/
def chompingMark (header : BlockHeader) (cursor : Cursor) : BlockHeader × Cursor :=
  match cursor.rest with
  | '+' :: _ => ({ header with chomping := .keep }, cursor.next)
  | '-' :: _ => ({ header with chomping := .strip }, cursor.next)
  | _ => (header, cursor)

/-- Read the indentation of a header, if there is one. It cannot be zero. -/
def incrementMark (header : BlockHeader) (cursor : Cursor) : Option (BlockHeader × Cursor) :=
  match cursor.rest with
  | c :: _ =>
    if c.isDigit then
      if c == '0' then none
      else some ({ header with increment := some (c.toNat - '0'.toNat) }, cursor.next)
    else some (header, cursor)
  | [] => some (header, cursor)

/-- Read the marks of a header, which come in any order. -/
def blockMarks (cursor : Cursor) : Option (BlockHeader × Cursor) :=
  match cursor.rest with
  | c :: _ =>
    if c == '+' || c == '-' then
      let (header, cursor) := chompingMark {} cursor
      incrementMark header cursor
    else (incrementMark {} cursor).map fun (header, cursor) => chompingMark header cursor
  | [] => some ({}, cursor)

/-- The cursor behind the characters that satisfy a condition. -/
def skipWhile (condition : Char → Bool) (cursor : Cursor) : Cursor :=
  cursor.skip (cursor.rest.takeWhile condition).length

/-- The cursor on the line behind a header. Only blanks and a comment may follow the header. -/
def behindHeader? (cursor : Cursor) : Option Cursor :=
  let cursor := skipWhile isSpace cursor
  let cursor :=
    if begins "#" cursor.rest then skipWhile (fun c => !isBreak c) cursor else cursor
  match cursor.rest with
  | [] => some cursor
  | c :: _ => if isBreak c then some cursor.next else none

/-- The empty lines before a line of a block, the widest indentation among them, and the cursor at
the text of that line. Without a known indentation all spaces are skipped. -/
def emptyLinesUpTo (indent : Option Nat) :
    Nat → Nat → Cursor → Option (Text × Nat × Cursor)
  | 0, widest, cursor => some ([], widest, cursor)
  | limit + 1, widest, cursor =>
    let spaces := (cursor.rest.takeWhile (· == ' ')).length
    let wanted :=
      match indent with
      | some indent => Nat.min spaces (indent - cursor.column)
      | none => spaces
    let cursor := cursor.skip wanted
    let widest := Nat.max widest cursor.column
    let inside :=
      match indent with
      | some indent => cursor.column < indent
      | none => true
    match cursor.rest with
    | [] => some ([], widest, cursor)
    | c :: _ =>
      if inside && c == '\t' then none
      else if isBreak c then
        match emptyLinesUpTo indent limit widest cursor.next with
        | none => none
        | some (more, widest, cursor) => some (c :: more, widest, cursor)
      else some ([], widest, cursor)

/-- The state between two lines of a block. -/
structure BlockState where
  text : Text := []
  /-- The end of the line before. -/
  lineEnd : Text := []
  emptyLines : Text := []
  /-- Whether the line before began with a blank. -/
  afterBlank : Bool := false

/-- The line ends between two lines of a block. In a folded block a single one becomes a space,
unless one of the lines begins with a blank. -/
def joinLines (literal : Bool) (state : BlockState) (blank : Bool) : Text :=
  if !literal && begins "\n" state.lineEnd && !state.afterBlank && !blank then
    if state.emptyLines.isEmpty then [' '] else state.emptyLines
  else state.lineEnd ++ state.emptyLines

/-- The lines of a block with a known indentation. -/
def blockLinesUpTo (literal : Bool) (indent : Nat) :
    Nat → BlockState → Cursor → Option (BlockState × Cursor)
  | 0, state, cursor => some (state, cursor)
  | limit + 1, state, cursor =>
    if cursor.column != indent || cursor.rest.isEmpty then some (state, cursor)
    else
      let blank := (cursor.rest.head?.map isSpace).getD false
      let content := cursor.rest.takeWhile fun c => !isBreak c
      let behind := cursor.skip content.length
      let lineEnd := behind.rest.take 1
      match emptyLinesUpTo (some indent) behind.rest.length 0 behind.next with
      | none => none
      | some (emptyLines, _, cursor) =>
        blockLinesUpTo literal indent limit {
          text := state.text ++ joinLines literal state blank ++ content
          lineEnd
          emptyLines
          afterBlank := blank } cursor

/-- The text of a block with its last line ends. -/
def chomp (chomping : Chomping) (state : BlockState) : Text :=
  match chomping with
  | .strip => state.text
  | .clip => state.text ++ state.lineEnd
  | .keep => state.text ++ state.lineEnd ++ state.emptyLines

/-- A block of lines from its indicator on, inside a block with a given indentation. -/
def block (literal : Bool) (outer : Int) (cursor : Cursor) : Option (Text × Cursor) := do
  let (header, cursor) ← blockMarks cursor.next
  let cursor ← behindHeader? cursor
  let given := header.increment.map fun increment => outer.toNat + increment
  let (emptyLines, widest, cursor) ← emptyLinesUpTo given cursor.rest.length 0 cursor
  let indent := given.getD (Nat.max (Nat.max widest (outer + 1).toNat) 1)
  let (state, cursor) ← blockLinesUpTo literal indent cursor.rest.length { emptyLines } cursor
  pure (chomp header.chomping state, cursor)

end Unpacking.Yaml
