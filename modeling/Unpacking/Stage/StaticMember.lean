import Unpacking.Line.Signature
import Unpacking.Text.Pattern

/-!
Members that need no instance: methods and renamed fields that lack the `static` modifier get it,
right before their type, and the qualifiers `this.` and `Outer.this.` go.
-/

namespace Unpacking.Stage

open Text Line

/-- Insert the `static` modifier behind the first characters of a line. -/
def insertStatic (line : Line) (size : Nat) : Line :=
  line.take size ++ "static " ++ line.drop size

/-- A method that opens its block and is neither static nor abstract becomes static. -/
def makeMethodStatic (line : Line) : Line :=
  if isCommentOrImport line then line
  else
    match Signature.parse? line with
    | some signature =>
      if signature.opensBlock && !signature.isStatic && !signature.isAbstract then
        insertStatic line signature.head.length
      else line
    | none => line

/-- Make every method of a text static. -/
def makeMethodsStatic (text : Text) : Text :=
  mapLines makeMethodStatic text

/-- The modifiers of a field. -/
def fieldModifiers : List Text :=
  ["public", "private", "protected", "static", "final", "volatile", "transient"]

/-- The words of a statement that stand where a field has its type. -/
def statementWords : List Text :=
  ["return", "throw", "else", "new", "case", "yield", "assert"]

/-- The name of a renamed field: it follows the blanks behind the type and comes before an equals
sign or a semicolon. -/
def fieldName? (text : Text) : Option Text := do
  let rest ← afterBlanks? text
  let suffix ← after? "field_" rest
  match trimStart (suffix.dropWhile isNameCharacter) with
  | c :: _ => if c == '=' || c == ';' then pure (suffix.takeWhile isNameCharacter) else none
  | [] => none

/-- The declaration of a renamed field on a single line. -/
structure FieldDeclaration where
  modifiers : List Text
  type : Text
  /-- The line from the type on. -/
  fromType : Text

/-- Recognise the declaration of a renamed field. -/
def fieldDeclaration? (line : Line) : Option FieldDeclaration :=
  (repeats (oneOf? fieldModifiers) (trimStart line)).findSome? fun (modifiers, fromType) =>
    let allowed := fun c => c != '=' && c != ';' && c != '(' && c != ')'
    (Signature.typed? allowed fieldName? fromType).map fun (type, _) =>
      { modifiers, type, fromType }

/-- A renamed field that is not static becomes static. -/
def makeFieldStatic (line : Line) : Line :=
  if isCommentOrImport line then line
  else
    match fieldDeclaration? line with
    | some field =>
      if field.modifiers.contains "static" || statementWords.contains field.type then line
      else insertStatic line (line.length - field.fromType.length)
    | none => line

/-- Make every renamed field of a text static. -/
def makeFieldsStatic (text : Text) : Text :=
  mapLines makeFieldStatic text

/-- The characters a qualifying class name begins with. -/
def isNameStart (c : Char) : Bool :=
  c.isAlpha || c == '_' || c == '$'

/-- The text behind a qualified self reference. -/
def qualifiedSelf? : Text → Option Text
  | c :: rest => if isNameStart c then after? ".this." (rest.dropWhile isNameCharacter) else none
  | [] => none

/-- A self reference with its dot. -/
def selfReference : Pattern :=
  Pattern.atBoundary
    (Pattern.orElse (Pattern.ofReader qualifiedSelf?) (Pattern.literal "this."))

/-- A line of code without its self references. -/
def withoutSelfReferences (line : Line) : Line :=
  if isLineComment line then line else selfReference.replaceAll (fun _ => []) line

/-- Drop the self references of every line that is not a comment. -/
def removeSelfReferences (text : Text) : Text :=
  mapLines withoutSelfReferences text

end Unpacking.Stage
