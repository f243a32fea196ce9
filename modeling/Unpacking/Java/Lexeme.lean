import Unpacking.Text.Basic

/-!
Java source as a list of lexemes. Nothing is lost: blanks and comments are lexemes too, and the
texts of the lexemes make up the source. Main statement: `flatMap_text_lexemes`.
-/

namespace Unpacking.Java

open Text

/-- The kind of a lexeme. -/
inductive LexemeKind where
  | blank
  | comment
  /-- A name or a keyword. -/
  | word
  /-- A number, a character or a string. -/
  | literal
  | symbol
deriving DecidableEq, Repr

/-- A piece of source text. -/
structure Lexeme where
  kind : LexemeKind
  text : Text
deriving DecidableEq, Repr

/-- Blank characters of source text; a byte order mark counts as one. -/
def isSourceBlank (c : Char) : Bool :=
  (9 ≤ c.toNat && c.toNat ≤ 13) || c == ' ' || c.toNat == 0xFEFF

/-- The characters a word begins with. Outside ASCII every character belongs to a word. -/
def isWordStart (c : Char) : Bool :=
  c.isAlpha || c == '_' || c == '$' || c.toNat ≥ 128

/-- The characters a word goes on with. -/
def isWordPart (c : Char) : Bool :=
  isWordStart c || c.isDigit

/-- The number of characters up to the end of a block comment. -/
def blockCommentLength : Text → Nat
  | '*' :: '/' :: _ => 2
  | _ :: rest => blockCommentLength rest + 1
  | [] => 0

/-- The number of characters up to the closing quote of a literal on one line. -/
def quotedLength (quote : Char) : Text → Nat
  | '\\' :: _ :: rest => quotedLength quote rest + 2
  | c :: rest => if c = quote then 1 else if c = '\n' then 0 else quotedLength quote rest + 1
  | [] => 0

/-- The number of characters up to the closing quotes of a text block. -/
def textBlockLength : Text → Nat
  | '\\' :: _ :: rest => textBlockLength rest + 2
  | '"' :: '"' :: '"' :: _ => 3
  | _ :: rest => textBlockLength rest + 1
  | [] => 0

/-- The number of characters of a number; a sign belongs to it behind an exponent mark. -/
def numberLength (isExponentMark : Char → Bool) (before : Char) : Text → Nat
  | [] => 0
  | c :: rest =>
    if isWordPart c || c == '.' || ((c == '+' || c == '-') && isExponentMark before) then
      numberLength isExponentMark c rest + 1
    else 0

/-- The exponent marks of the number at the front of a text. -/
def exponentMark : Text → Char → Bool
  | '0' :: x :: _ => fun c =>
    if x == 'x' || x == 'X' then c == 'p' || c == 'P' else c == 'e' || c == 'E'
  | _ => fun c => c == 'e' || c == 'E'

/-- The symbols of more than one character, longer ones first. A closing angle bracket is always
a symbol of its own, because it may close a list of type arguments. -/
def longSymbols : List Text :=
  ["...", "<<=", "->", "::", "++", "--", "&&", "||", "==", "!=", "<=", "<<", "+=", "-=", "*=",
    "/=", "&=", "|=", "^=", "%="]

/-- The number of characters of the symbol at the front of a text. -/
def symbolLength (text : Text) : Nat :=
  match longSymbols.find? fun symbol => begins symbol text with
  | some symbol => symbol.length
  | none => 1

/-- Whether a text begins with a number. -/
def beginsNumber : Text → Bool
  | '.' :: c :: _ => c.isDigit
  | c :: _ => c.isDigit
  | [] => false

/-- The kind and the length of the lexeme at the front of a text. -/
def front (text : Text) : LexemeKind × Nat :=
  match text with
  | '/' :: '/' :: rest => (.comment, (rest.takeWhile (· != '\n')).length + 2)
  | '/' :: '*' :: rest => (.comment, blockCommentLength rest + 2)
  | '"' :: '"' :: '"' :: rest => (.literal, textBlockLength rest + 3)
  | '"' :: rest => (.literal, quotedLength '"' rest + 1)
  | '\'' :: rest => (.literal, quotedLength '\'' rest + 1)
  | c :: rest =>
    if isSourceBlank c then (.blank, (rest.takeWhile isSourceBlank).length + 1)
    else if beginsNumber text then (.literal, numberLength (exponentMark text) c rest + 1)
    else if isWordStart c then (.word, (rest.takeWhile isWordPart).length + 1)
    else (.symbol, symbolLength text)
  | [] => (.blank, 0)

/-- The first `limit` lexemes of a text; what is left over makes one more. -/
def lexemesUpTo : Nat → Text → List Lexeme
  | _, [] => []
  | 0, c :: rest => [{ kind := .symbol, text := c :: rest }]
  | limit + 1, c :: rest =>
    let (kind, size) := front (c :: rest)
    { kind, text := c :: rest.take (size - 1) } :: lexemesUpTo limit (rest.drop (size - 1))

/-- The lexemes of a source. Each of them takes a character at least, so the length of the source
bounds their number. -/
def lexemes (source : Text) : List Lexeme :=
  lexemesUpTo source.length source

theorem flatMap_text_lexemesUpTo (limit : Nat) (source : Text) :
    (lexemesUpTo limit source).flatMap Lexeme.text = source := by
  induction limit generalizing source with
  | zero => cases source <;> simp [lexemesUpTo]
  | succ limit inductionHypothesis =>
    cases source with
    | nil => simp [lexemesUpTo]
    | cons c rest => simp [lexemesUpTo, inductionHypothesis]

/-- The texts of the lexemes make up the source. -/
theorem flatMap_text_lexemes (source : Text) :
    (lexemes source).flatMap Lexeme.text = source :=
  flatMap_text_lexemesUpTo source.length source

/-- The front lexeme and the ones behind it. -/
theorem lexemesUpTo_succ (limit : Nat) {text : Text} (filled : text ≠ []) :
    lexemesUpTo (limit + 1) text =
      { kind := (front text).1, text := text.take ((front text).2 - 1 + 1) } ::
        lexemesUpTo limit (text.drop ((front text).2 - 1 + 1)) := by
  obtain ⟨c, rest, rfl⟩ := List.exists_cons_of_ne_nil filled
  rfl

theorem lexemesUpTo_of_front (limit : Nat) {kind : LexemeKind} {piece rest : Text}
    (filled : piece ≠ []) (isFront : front (piece ++ rest) = (kind, piece.length)) :
    lexemesUpTo (limit + 1) (piece ++ rest) =
      { kind, text := piece } :: lexemesUpTo limit rest := by
  have size : piece.length - 1 + 1 = piece.length :=
    Nat.sub_add_cancel (List.length_pos_iff.mpr filled)
  rw [lexemesUpTo_succ limit (by simp [filled]), isFront]
  simp only [size, List.take_left, List.drop_left]

end Unpacking.Java
