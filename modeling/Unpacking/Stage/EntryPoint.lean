import Unpacking.Line.Basic
import Unpacking.Text.Pattern
import Unpacking.Text.Reading

/-!
The entry class gets the name of the program. The platform hands an application its context through
one method, which becomes a main method: a stand-in expression is put for its context parameter,
inside the body of the method only.
-/

namespace Unpacking.Stage

open Text Line

/-- Replace every whole word `old` by `new`. -/
def renameClass (old new : Text) (text : Text) : Text :=
  (Pattern.wholeWord old).replaceAll (fun _ => new) text

/-- What became of the entry point of a class. -/
structure EntryPoint where
  text : Text
  /-- The name of the context parameter, if the method was found. -/
  parameter : Option Text
  /-- The number of uses of the parameter that were replaced. -/
  replacements : Nat
deriving DecidableEq, Repr

/-- The header of the method that receives the application context. -/
structure ContextHeader where
  indentation : Text
  parameter : Text
  /-- The line behind the parameter list. -/
  rest : Text

/-- Read the header of the method that receives the application context. -/
def contextHeader? (line : Line) : Option ContextHeader := do
  let modifiers : List Text := ["public", "protected", "private", "final"]
  let rest ← after? "void" (afterItems (oneOf? modifiers) (trimStart line))
  let rest ← afterBlanks? rest
  let rest ← after? "attachBaseContext" rest
  let rest ← after? "(" (trimStart rest)
  let rest := trimStart rest
  let rest := ((oneOf? ["final"] rest).map Prod.snd).getD rest
  let rest ← after? "Context" ((after? "android.content." rest).getD rest)
  let rest ← afterBlanks? rest
  let (parameter, rest) ← run? isNameCharacter rest
  let rest ← after? ")" (trimStart rest)
  pure { indentation := indentation line, parameter, rest }

/-- Replace the parameter in a text, and count its uses. -/
def replaceParameter (parameter standIn : Text) (text : Text) : Text × Nat :=
  let pattern := Pattern.wholeWord parameter
  (pattern.replaceAll (fun _ => standIn) text, pattern.count text)

/-- Replace the parameter on the lines of a body that is open at a given brace depth. The body
ends with a line that closes a brace and leaves no brace open. -/
def replaceInBody (parameter standIn : Text) (depth : Int) : List Line → List Line × Nat
  | [] => ([], 0)
  | line :: rest =>
    let depth := depth + braceBalance line
    let (changed, uses) :=
      if isLineComment line then (line, 0) else replaceParameter parameter standIn line
    if depth ≤ 0 && line.contains '}' then (changed :: rest, uses)
    else
      let (more, moreUses) := replaceInBody parameter standIn depth rest
      (changed :: more, uses + moreUses)

/-- The header of a line of code; comments and imports have none. -/
def codeHeader? (line : Line) : Option ContextHeader :=
  if isCommentOrImport line then none else contextHeader? line

/-- Turn the first context method of some lines into a main method. -/
def replaceEntryPoint (standIn : Text) : List Line → List Line × Option Text × Nat
  | [] => ([], none, 0)
  | line :: rest =>
    match codeHeader? line with
    | none =>
      let (more, parameter, uses) := replaceEntryPoint standIn rest
      (line :: more, parameter, uses)
    | some header =>
      let (tail, uses) := replaceParameter header.parameter standIn header.rest
      let changed := header.indentation ++ "public static void main(String[] args)" ++ tail
      let depth := braceBalance line
      if depth > 0 || !line.contains '{' then
        let (more, moreUses) := replaceInBody header.parameter standIn depth rest
        (changed :: more, some header.parameter, uses + moreUses)
      else
        (changed :: rest, some header.parameter, uses)

/-- Turn the context method of a class into a main method. -/
def entryPoint (standIn : Text) (text : Text) : EntryPoint :=
  let (changed, parameter, replacements) := replaceEntryPoint standIn (lines text)
  { text := unlines changed (endsWithNewline text), parameter, replacements }

end Unpacking.Stage
