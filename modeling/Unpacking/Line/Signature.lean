import Unpacking.Line.Basic
import Unpacking.Text.Reading

/-!
Method declarations that are recognised on a single line. Constructors, calls, control statements
and class headers are not method declarations.
-/

namespace Unpacking

open Text

/-- A method declaration on a single line. -/
structure Signature where
  name : Text
  /-- The line before the return type. -/
  head : Text
  isStatic : Bool
  isAbstract : Bool
  /-- Whether the line ends with an opening brace. -/
  opensBlock : Bool
deriving DecidableEq, Repr

namespace Signature

/-- The offset of the return type within the line, in bytes. -/
def typeStart (signature : Signature) : Nat :=
  byteLength signature.head

/-- The words that may stand before a return type. -/
def modifierWords : List Text :=
  ["public", "private", "protected", "static", "final", "abstract", "synchronized", "native",
    "strictfp", "default"]

/-- The words that may stand before a name and a parenthesis without being a type. -/
def nonTypeWords : List Text :=
  ["return", "new", "throw", "else", "case", "yield", "class", "interface", "enum", "extends",
    "implements", "import", "package", "assert"]

/-- The words that take a parenthesis without being a method. -/
def controlWords : List Text :=
  ["if", "for", "while", "switch", "catch", "synchronized", "try", "do", "else", "new",
    "return"]

/-- The text behind the arguments of an annotation, if it has arguments. -/
def afterArguments (text : Text) : Text :=
  match text with
  | '(' :: inner =>
    match cut? ')' inner with
    | some (_, rest) => rest
    | none => text
  | _ => text

/-- An annotation followed by a blank. -/
def annotation? (text : Text) : Option (Unit × Text) := do
  let rest ← after? ['@'] text
  let (_, rest) ← run? (fun c => isWord c || c == '.') rest
  let rest ← afterBlanks? (afterArguments rest)
  pure ((), rest)

/-- A word of lower-case letters followed by a blank. -/
def lowerWord? (text : Text) : Option (Text × Text) := do
  let (word, rest) ← run? Char.isLower text
  let rest ← afterBlanks? rest
  pure (word, rest)

/-- The text behind a list of type parameters and its blanks, if there is one. -/
def afterTypeParameters (text : Text) : Text :=
  match text with
  | '<' :: inner =>
    match cut? '>' inner with
    | some (_, rest) => (afterBlanks? rest).getD text
    | none => text
  | _ => text

/-- The name of a method: it follows the blanks behind the type and comes before a parenthesis. -/
def methodName? (text : Text) : Option Text := do
  let rest ← afterBlanks? text
  let (name, rest) ← run? isNameCharacter rest
  let _ ← after? ['('] (trimStart rest)
  pure name

/-- A type and what a reader finds behind it. The type arguments hold allowed characters only, and
they reach as far as the reader accepts what follows. -/
def typed? {α : Type} (allowed : Char → Bool) (reader : Text → Option α) (text : Text) :
    Option (Text × α) := do
  let (base, rest) ← run? (fun c => isNameCharacter c || c == '.') text
  let places : List (Text × Text) :=
    match rest with
    | '<' :: inner => (closings allowed inner).map fun (left, right) => ('<' :: left, right)
    | _ => [([], rest)]
  places.findSome? fun (arguments, rest) => do
    let behind := afterBrackets rest
    let found ← reader behind
    pure (base ++ arguments ++ rest.take (rest.length - behind.length), found)

/-- What a line begins with if it may declare a method. -/
structure Beginning where
  modifiers : List Text
  /-- The line from the return type on. -/
  fromType : Text
  type : Text
  name : Text

/-- The beginning of a line: blanks, annotations, as many lower-case words as possible, type
parameters, a type and a name before a parenthesis. -/
def beginning? (line : Line) : Option Beginning :=
  let rest := afterItems annotation? (trimStart line)
  (repeats lowerWord? rest).findSome? fun (modifiers, rest) =>
    let fromType := afterTypeParameters rest
    (typed? (fun c => c != '\n') methodName? fromType).map fun (type, name) => { modifiers, fromType, type, name }

/-- Recognise a method declaration. Abstract and native methods may end with a semicolon, all
others open their body on the same line. -/
def parse? (line : Line) : Option Signature := do
  let found ← beginning? line
  let trimmed := trimEnd line
  let isAbstract := found.modifiers.any fun word =>
    word == "abstract" || word == "native"
  let opensBlock := ends ['{'] trimmed
  if found.modifiers.all modifierWords.contains &&
      !modifierWords.contains found.type && !nonTypeWords.contains found.type &&
      !controlWords.contains found.name &&
      (opensBlock || (isAbstract && ends [';'] trimmed)) && trimmed.contains ')' then
    some {
      name := found.name
      head := line.take (line.length - found.fromType.length)
      isStatic := found.modifiers.contains "static"
      isAbstract
      opensBlock }
  else
    none

end Signature

end Unpacking
