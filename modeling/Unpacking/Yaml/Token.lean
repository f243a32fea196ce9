import Unpacking.Yaml.Scalar

/-!
The tokens of a YAML text. Indentation opens and closes blocks, and a scalar turns out to be a key
only when a colon follows it, so that the token before a key is put in later.
-/

namespace Unpacking.Yaml

open Text

/-- A token of a YAML text. -/
inductive Token where
  /-- A directive with the version of the language. -/
  | version
  /-- A directive with a shorthand for tags. -/
  | shorthand
  | documentStart
  | documentEnd
  | blockSequenceStart
  | blockMappingStart
  | blockEnd
  | flowSequenceStart
  | flowSequenceEnd
  | flowMappingStart
  | flowMappingEnd
  | blockEntry
  | flowEntry
  | key
  | value
  | alias (name : Text)
  | anchor (name : Text)
  | tag
  /-- A scalar; only a plain one can be more than a string. -/
  | scalar (plain : Bool) (text : Text)
deriving DecidableEq, Repr

/-- A token that may turn out to be a key. -/
structure PossibleKey where
  /-- Whether nothing but a key can stand there. -/
  required : Bool
  /-- The number of tokens before it. -/
  position : Nat
  cursor : Cursor

/-- The state of the scan. -/
structure Scanner where
  cursor : Cursor
  tokens : List Token := []
  /-- The indentation of the innermost block; -1 outside of all blocks. -/
  indent : Int := -1
  /-- The indentations of the blocks around it, the innermost first. -/
  outerIndents : List Int := []
  keyAllowed : Bool := true
  /-- The possible key at this level. -/
  possibleKey : Option PossibleKey := none
  /-- The possible keys at the levels of flow around this one, the innermost first. -/
  outerKeys : List (Option PossibleKey) := []

namespace Scanner

/-- Whether the scan is inside brackets or braces. -/
def inFlow (scanner : Scanner) : Bool :=
  !scanner.outerKeys.isEmpty

/-- Add a token. -/
def emit (scanner : Scanner) (token : Token) : Scanner :=
  { scanner with tokens := scanner.tokens ++ [token] }

/-- Add a token, and go past the characters of its indicator. -/
def take (scanner : Scanner) (count : Nat) (token : Token) : Scanner :=
  { scanner with tokens := scanner.tokens ++ [token], cursor := scanner.cursor.skip count }

/-- Close the blocks that are indented deeper than a column. -/
def unrollUpTo (column : Int) : Nat → Scanner → Scanner
  | 0, scanner => scanner
  | limit + 1, scanner =>
    if scanner.inFlow || scanner.indent ≤ column then scanner
    else
      unrollUpTo column limit {
        scanner.emit .blockEnd with
        indent := scanner.outerIndents.head?.getD (-1)
        outerIndents := scanner.outerIndents.tail }

/-- Close the blocks that are indented deeper than a column. -/
def unroll (column : Int) (scanner : Scanner) : Scanner :=
  unrollUpTo column (scanner.outerIndents.length + 1) scanner

/-- Open a block at a column, unless it is open. The token goes to a given position. -/
def roll (column : Nat) (position : Nat) (token : Token) (scanner : Scanner) : Scanner :=
  if scanner.inFlow || (column : Int) ≤ scanner.indent then scanner
  else
    { scanner with
      tokens := scanner.tokens.insertIdx position token
      indent := column
      outerIndents := scanner.indent :: scanner.outerIndents }

/-- Give up a possible key, unless it is required. -/
def dropKey (scanner : Scanner) : Option Scanner :=
  match scanner.possibleKey with
  | some key => if key.required then none else some { scanner with possibleKey := none }
  | none => some scanner

/-- Note that the next token may turn out to be a key. -/
def noteKey (scanner : Scanner) : Option Scanner :=
  if scanner.keyAllowed then do
    let scanner ← scanner.dropKey
    pure { scanner with possibleKey := some {
      required := !scanner.inFlow && scanner.indent == (scanner.cursor.column : Int)
      position := scanner.tokens.length
      cursor := scanner.cursor } }
  else some scanner

/-- A key stands on one line and is not too long; what can no longer be one is given up. -/
def isStale (cursor : Cursor) (key : PossibleKey) : Bool :=
  key.cursor.line < cursor.line || key.cursor.index + 1024 < cursor.index

/-- Give up a possible key that is stale. -/
def refresh (cursor : Cursor) (key : Option PossibleKey) : Option (Option PossibleKey) :=
  match key with
  | none => some none
  | some key =>
    if isStale cursor key then if key.required then none else some none
    else some (some key)

/-- Give up all possible keys that are stale. -/
def dropStaleKeys (scanner : Scanner) : Option Scanner := do
  let possibleKey ← refresh scanner.cursor scanner.possibleKey
  let outerKeys ← scanner.outerKeys.mapM (refresh scanner.cursor)
  pure { scanner with possibleKey, outerKeys }

/-- Go past blanks, comments and line ends. A line end allows a key again, outside of flow. A tab
is no indentation. -/
def skipTriviaUpTo : Nat → Bool → Scanner → Scanner
  | 0, _, scanner => scanner
  | limit + 1, inComment, scanner =>
    match scanner.cursor.rest with
    | [] => scanner
    | c :: _ =>
      let ahead := { scanner with cursor := scanner.cursor.next }
      if isBreak c then
        skipTriviaUpTo limit false { ahead with keyAllowed := scanner.keyAllowed || !scanner.inFlow }
      else if inComment || c == ' ' || (c == '\t' && (scanner.inFlow || !scanner.keyAllowed)) then
        skipTriviaUpTo limit inComment ahead
      else if c == '#' then skipTriviaUpTo limit true ahead
      else scanner

/-- Go past blanks, comments and line ends. -/
def skipTrivia (scanner : Scanner) : Scanner :=
  skipTriviaUpTo scanner.cursor.rest.length false scanner

/-- A mark between documents closes everything. -/
def documentMark (scanner : Scanner) (count : Nat) (token : Token) : Option Scanner := do
  let scanner ← (scanner.unroll (-1)).dropKey
  pure ({ scanner with keyAllowed := false }.take count token)

/-- The digits at the front of a text. -/
def number? (text : Text) : Option (Nat × Text) :=
  let digits := text.takeWhile Char.isDigit
  if digits.isEmpty then none
  else some (digits.foldl (fun value c => 10 * value + (c.toNat - '0'.toNat)) 0,
    text.dropWhile Char.isDigit)

/-- The token of a directive, if the directive is one that is known. Of versions, 1.1 and 1.2 are
known. -/
def directiveToken? (line : Text) : Option Token := do
  let name := line.takeWhile fun c => c.isAlphanum || c == '_' || c == '-'
  let rest := line.drop name.length
  let words := (fields isSpace rest).filter fun word => !word.isEmpty
  let words := words.takeWhile fun word => !begins "#" word
  if !beginsBlank rest then none
  else if name == "YAML" then
    match words with
    | [version] => do
      let (major, rest) ← number? version
      let rest ← after? "." rest
      let (minor, rest) ← number? rest
      if rest.isEmpty && major == 1 && (minor == 1 || minor == 2) then some .version else none
    | _ => none
  else if name == "TAG" then
    match words with
    | [handle, _] => if begins "!" handle && ends "!" handle then some .shorthand else none
    | _ => none
  else none

/-- A directive takes a line. -/
def directive (scanner : Scanner) : Option Scanner := do
  let line := scanner.cursor.rest.takeWhile fun c => !isBreak c
  let token ← directiveToken? (line.drop 1)
  scanner.documentMark line.length token

/-- An opening bracket or brace. -/
def openFlow (scanner : Scanner) (token : Token) : Option Scanner := do
  let scanner ← scanner.noteKey
  pure ({ scanner with
    keyAllowed := true
    possibleKey := none
    outerKeys := scanner.possibleKey :: scanner.outerKeys }.take 1 token)

/-- A closing bracket or brace. -/
def closeFlow (scanner : Scanner) (token : Token) : Option Scanner := do
  let scanner ← scanner.dropKey
  let scanner :=
    match scanner.outerKeys with
    | key :: outer => { scanner with possibleKey := key, outerKeys := outer }
    | [] => scanner
  pure ({ scanner with keyAllowed := false }.take 1 token)

/-- A comma inside flow. -/
def flowEntry (scanner : Scanner) : Option Scanner := do
  let scanner ← scanner.dropKey
  pure ({ scanner with keyAllowed := true }.take 1 .flowEntry)

/-- The dash of an entry of a block. -/
def blockEntry (scanner : Scanner) : Option Scanner :=
  if !scanner.inFlow && !scanner.keyAllowed then none
  else do
    let scanner := scanner.roll scanner.cursor.column scanner.tokens.length .blockSequenceStart
    let scanner ← scanner.dropKey
    pure ({ scanner with keyAllowed := true }.take 1 .blockEntry)

/-- The question mark of an explicit key. -/
def explicitKey (scanner : Scanner) : Option Scanner :=
  if !scanner.inFlow && !scanner.keyAllowed then none
  else do
    let scanner := scanner.roll scanner.cursor.column scanner.tokens.length .blockMappingStart
    let scanner ← scanner.dropKey
    pure ({ scanner with keyAllowed := !scanner.inFlow }.take 1 .key)

/-- The colon before a value. It makes a key of the token that may be one. -/
def value (scanner : Scanner) : Option Scanner :=
  match scanner.possibleKey with
  | some key =>
    let scanner := { scanner with
      tokens := scanner.tokens.insertIdx key.position .key
      possibleKey := none
      keyAllowed := false }
    some ((scanner.roll key.cursor.column key.position .blockMappingStart).take 1 .value)
  | none =>
    if !scanner.inFlow && !scanner.keyAllowed then none
    else
      let scanner := scanner.roll scanner.cursor.column scanner.tokens.length .blockMappingStart
      some ({ scanner with keyAllowed := !scanner.inFlow }.take 1 .value)

/-- The characters of the names of anchors. -/
def isAnchorCharacter (c : Char) : Bool :=
  c.isAlphanum || c == '_' || c == '-'

/-- An anchor or an alias. -/
def anchor (scanner : Scanner) (token : Text → Token) : Option Scanner := do
  let scanner ← scanner.noteKey
  let name := (scanner.cursor.rest.drop 1).takeWhile isAnchorCharacter
  let rest := (scanner.cursor.rest.drop 1).drop name.length
  let ended := beginsBlank rest ||
    (rest.head?.map fun c => ['?', ':', ',', ']', '}', '%', '@', '\x60'].contains c).getD false
  if name.isEmpty || !ended then none
  else pure ({ scanner with keyAllowed := false }.take (name.length + 1) (token name))

/-- The characters of tags. -/
def isTagCharacter (flow : Bool) (c : Char) : Bool :=
  isAnchorCharacter c || (!flow && [',', '[', ']'].contains c) ||
    [';', '/', '?', ':', '@', '&', '=', '+', '$', '.', '!', '~', '*', '\'', '(', ')', '%',
      '<', '>'].contains c

/-- A tag, which says nothing here. -/
def tag (scanner : Scanner) : Option Scanner := do
  let scanner ← scanner.noteKey
  let text := scanner.cursor.rest.takeWhile (isTagCharacter scanner.inFlow)
  let rest := scanner.cursor.rest.drop text.length
  if beginsBlank rest || (scanner.inFlow && begins "," rest) then
    pure ({ scanner with keyAllowed := false }.take text.length .tag)
  else none

/-- A block of lines. -/
def blockScalar (scanner : Scanner) (literal : Bool) : Option Scanner := do
  let scanner ← scanner.dropKey
  let (text, cursor) ← block literal scanner.indent scanner.cursor
  pure ({ scanner with keyAllowed := true, cursor }.emit (.scalar false text))

/-- A scalar in quotes. -/
def quotedScalar (scanner : Scanner) (single : Bool) : Option Scanner := do
  let scanner ← scanner.noteKey
  let (text, cursor) ← quoted single scanner.cursor
  pure ({ scanner with keyAllowed := false, cursor }.emit (.scalar false text))

/-- A plain scalar. -/
def plainScalar (scanner : Scanner) : Option Scanner := do
  let scanner ← scanner.noteKey
  let (text, broken, cursor) ← plain scanner.inFlow (scanner.indent + 1) scanner.cursor
  pure ({ scanner with keyAllowed := broken, cursor }.emit (.scalar true text))

/-- The characters that cannot begin a plain scalar. -/
def indicators : List Char :=
  ['-', '?', ':', ',', '[', ']', '{', '}', '#', '&', '*', '!', '|', '>', '\'', '"', '%', '@',
    '\x60']

/-- Whether a plain scalar begins with a character. -/
def beginsPlain (flow : Bool) (c : Char) (rest : Text) : Bool :=
  !(indicators.contains c || isSpace c) ||
    (c == '-' && !((rest.head?.map isSpace).getD false)) ||
    (!flow && (c == '?' || c == ':') && !beginsBlank rest)

/-- The token that begins with a character. -/
def tokenAt (scanner : Scanner) (c : Char) (rest : Text) : Option Scanner :=
  let flow := scanner.inFlow
  let column := scanner.cursor.column
  if column == 0 && c == '%' then scanner.directive
  else if scanner.cursor.atDocumentMark then
    scanner.documentMark 3 (if c == '-' then .documentStart else .documentEnd)
  else if c == '[' then scanner.openFlow .flowSequenceStart
  else if c == '{' then scanner.openFlow .flowMappingStart
  else if c == ']' then scanner.closeFlow .flowSequenceEnd
  else if c == '}' then scanner.closeFlow .flowMappingEnd
  else if c == ',' then scanner.flowEntry
  else if c == '-' && beginsBlank rest then scanner.blockEntry
  else if c == '?' && (flow || beginsBlank rest) then scanner.explicitKey
  else if c == ':' && (flow || beginsBlank rest) then scanner.value
  else if c == '*' then scanner.anchor .alias
  else if c == '&' then scanner.anchor .anchor
  else if c == '!' then scanner.tag
  else if c == '|' && !flow then scanner.blockScalar true
  else if c == '>' && !flow then scanner.blockScalar false
  else if c == '\'' then scanner.quotedScalar true
  else if c == '"' then scanner.quotedScalar false
  else if beginsPlain flow c rest then scanner.plainScalar
  else none

/-- The tokens from a state on. Each of them takes a character at least. -/
def tokensUpTo : Nat → Scanner → Option (List Token)
  | 0, _ => none
  | limit + 1, scanner => do
    let scanner ← scanner.skipTrivia.dropStaleKeys
    match scanner.cursor.rest with
    | [] =>
      let scanner ← (scanner.unroll (-1)).dropKey
      pure scanner.tokens
    | c :: rest =>
      let scanner ← (scanner.unroll scanner.cursor.column).tokenAt c rest
      tokensUpTo limit scanner

end Scanner

/-- Whether a character may stand in a YAML text. -/
def isPrintable (c : Char) : Bool :=
  let code := c.toNat
  code == 9 || code == 10 || code == 13 || (0x20 ≤ code && code ≤ 0x7E) || code == 0x85 ||
    (0xA0 ≤ code && code ≤ 0xFFFD) || 0x10000 ≤ code

/-- A text with one kind of line end. -/
def normalise : Text → Text
  | [] => []
  | '\r' :: '\n' :: rest => '\n' :: normalise rest
  | c :: rest => (if c == '\r' || c.toNat == 0x85 then '\n' else c) :: normalise rest

/-- A text without the byte order mark at its beginning. -/
def withoutMark : Text → Text
  | [] => []
  | c :: rest => if c.toNat == 0xFEFF then rest else c :: rest

/-- The tokens of a YAML text. -/
def tokens (text : Text) : Option (List Token) :=
  if text.all isPrintable then
    let source := normalise (withoutMark (withoutMark text))
    Scanner.tokensUpTo (source.length + 1) { cursor := { rest := source } }
  else none

end Unpacking.Yaml
