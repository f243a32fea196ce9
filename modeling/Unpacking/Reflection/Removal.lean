import Unpacking.Line.Signature
import Unpacking.Log
import Unpacking.Reflection.Assignment
import Unpacking.Reflection.Term

/-!
Removal of reflective code. A sweep follows one term through the text twice. The first pass
comments out every method that returns the term. The second pass comments out every other line
that holds it, and keeps the block structure with placeholder braces. The name of a removed method
and a variable that is assigned from the term become terms themselves, and are swept in turn, each
of them once.
-/

namespace Unpacking.Reflection

open Text Line

/-- The marker before each line of a removed method. -/
def methodLead : Text :=
  "// Unboxer "

/-- The line behind a removed method. -/
def methodMarker : Text :=
  "// Unboxer: Method contains reflection in return statement and was commented out"

/-- The trailer of a removed line. -/
def lineMarker : Text :=
  "// Unboxer: Line contains reflection and was commented out"

/-- What a sweep comes upon. -/
inductive Finding where
  /-- A method that returns the term was commented out. -/
  | method (name : Text)
  /-- A variable is assigned from the term. -/
  | assigned (name : Text)
  /-- A line that holds the term was commented out. -/
  | codeLine (line : Line)
deriving DecidableEq, Repr

namespace Finding

/-- The name that becomes a term. -/
def tainted? : Finding → Option Text
  | .method name => some name
  | .assigned name => some name
  | .codeLine _ => none

/-- The name of a removed method. -/
def removedMethod? : Finding → Option Text
  | .method name => some name
  | _ => none

/-- Whether a line was commented out on its own. -/
def isLine : Finding → Bool
  | .codeLine _ => true
  | _ => false

/-- The message about a finding. -/
def message : Finding → Text
  | .method name => "Removing reflective method: " ++ name
  | .assigned name => "Found reflective variable: " ++ name
  | .codeLine line => "Commented out reflective line starting with: " ++ trimStart line

end Finding

/-- Why a removal cannot be carried out. -/
inductive RemovalError where
  /-- The value of an assignment begins inside a character. -/
  | unreadableValue (line : Line)
deriving DecidableEq, Repr

/-- A method whose block is still open. -/
structure OpenMethod where
  name : Text
  /-- The lines read so far. -/
  lines : List Line
  depth : Int
  /-- Whether a return statement held the term. -/
  isReflective : Bool

/-- The part of a line behind its first opening brace returns the term. -/
def returnsInline (term : Text) (line : Line) : Bool :=
  match cut? '{' line with
  | some (_, body) =>
    let body := trimStart body
    begins "return" body && occurs term body
  | none => false

/-- A line of code that begins with a return statement and holds the term. -/
def returnsTerm (term : Text) (line : Line) : Bool :=
  !isCommentOrImport line && begins "return" (trimStart line) && occurs term line

/-- The method that a line opens. -/
def openMethod? (term : Text) (line : Line) : Option OpenMethod :=
  if isCommentOrImport line then none
  else
    match Signature.parse? line with
    | some signature =>
      if signature.opensBlock then
        some {
          name := signature.name
          lines := [line]
          depth := braceBalance line
          isReflective := returnsInline term line }
      else none
    | none => none

/-- An open method with one more line. -/
def OpenMethod.extend (term : Text) (method : OpenMethod) (line : Line) : OpenMethod :=
  { method with
    lines := method.lines ++ [line]
    depth := method.depth + braceBalance line
    isReflective := method.isReflective || returnsTerm term line }

/-- The lines that stand for a method whose block has closed. -/
def OpenMethod.close (method : OpenMethod) : List Line × List Finding :=
  if method.isReflective then
    (method.lines.map (methodLead ++ ·) ++ [methodMarker], [.method method.name])
  else (method.lines, [])

/-- The first pass of a sweep, from a line on. A method that never closes is left as it is. -/
def sweepMethods (term : Text) : Option OpenMethod → List Line → List Line × List Finding
  | none, [] => ([], [])
  | some method, [] => (method.lines, [])
  | current, line :: rest =>
    let extended :=
      match current with
      | none => openMethod? term line
      | some method => some (method.extend term line)
    match extended with
    | none =>
      let (more, findings) := sweepMethods term none rest
      (line :: more, findings)
    | some method =>
      if method.depth ≤ 0 then
        let (closed, found) := method.close
        let (more, findings) := sweepMethods term none rest
        (closed ++ more, found ++ findings)
      else sweepMethods term (some method) rest

/-- A line commented out, and the placeholders for its unmatched braces. -/
def commentedLine (line : Line) : List Line :=
  let (closes, opens) := unmatchedBraces line
  ["// " ++ line ++ " " ++ lineMarker] ++
    List.replicate closes (indentation line ++ "\x7d") ++
    List.replicate opens (indentation line ++ "if (true) \x7b")

/-- A line stays if it is a comment or an import, does not hold the term, or declares a method. -/
def staysLive (term : Text) (line : Line) : Bool :=
  isCommentOrImport line || !occurs term line || (Signature.parse? line).isSome

/-- The variable that a line assigns from the term. -/
def taintedVariable? (term : Text) (line : Line) : Except RemovalError (Option Text) :=
  match assignment? line with
  | none => .ok none
  | some assignment =>
    if !assignment.isReadable then .error (.unreadableValue line)
    else if assignment.name != term && occurs term assignment.value then
      .ok (some assignment.name)
    else .ok none

/-- What the second pass of a sweep makes of a line. -/
def sweepLine (term : Text) (line : Line) : Except RemovalError (List Line × List Finding) :=
  if staysLive term line then .ok ([line], [])
  else
    match taintedVariable? term line with
    | .error error => .error error
    | .ok none => .ok (commentedLine line, [.codeLine line])
    | .ok (some name) => .ok (commentedLine line, [.assigned name, .codeLine line])

/-- The second pass of a sweep. -/
def sweepLines (term : Text) : List Line → Except RemovalError (List Line × List Finding)
  | [] => .ok ([], [])
  | line :: rest =>
    match sweepLine term line with
    | .error error => .error error
    | .ok (here, found) =>
      match sweepLines term rest with
      | .error error => .error error
      | .ok (more, findings) => .ok (here ++ more, found ++ findings)

/-- The first pass over a text. -/
def methodPass (term text : Text) : Text × List Finding :=
  let (lines, findings) := sweepMethods term none (lines text)
  (unlines lines (endsWithNewline text), findings)

/-- The second pass over a text. -/
def linePass (term text : Text) : Except RemovalError (Text × List Finding) :=
  match sweepLines term (lines text) with
  | .error error => .error error
  | .ok (lines, findings) => .ok (unlines lines (endsWithNewline text), findings)

/-- A text on its way through the sweeps. -/
structure Removal where
  text : Text
  /-- Everything found so far, in order. -/
  findings : List Finding := []
  /-- The names waiting to be swept, the latest first. -/
  pending : List Text := []
  /-- The names that were swept, in order. -/
  processed : List Text := []
deriving DecidableEq, Repr

namespace Removal

/-- The methods that were commented out, in order. -/
def removedMethods (removal : Removal) : List Text :=
  removal.findings.filterMap Finding.removedMethod?

/-- The number of lines that were commented out on their own. -/
def commentedLines (removal : Removal) : Nat :=
  removal.findings.countP Finding.isLine

/-- The names that became terms, each at its first appearance. -/
def tainted (removal : Removal) : List Text :=
  (removal.findings.filterMap Finding.tainted?).eraseDups

/-- The number of reflective places that were neutralised. -/
def hits (removal : Removal) : Nat :=
  removal.removedMethods.length + removal.commentedLines

/-- The messages of a removal. -/
def log (removal : Removal) : Log :=
  removal.findings.map Finding.message

/-- Sweep the text for one term. -/
def sweep (removal : Removal) (term : Text) : Except RemovalError Removal :=
  let (text, inMethods) := methodPass term removal.text
  match linePass term text with
  | .error error => .error error
  | .ok (text, inLines) =>
    let found := inMethods ++ inLines
    .ok {
      removal with
      text
      findings := removal.findings ++ found
      pending := (found.filterMap Finding.tainted?).reverse ++ removal.pending }

section Loops

variable {ε : Type} (sweep : Removal → Text → Except ε Removal)

/-- Sweep for a list of terms, one after the other. -/
def sweepAllBy (removal : Removal) : List Text → Except ε Removal
  | [] => .ok removal
  | term :: terms =>
    match sweep removal term with
    | .error error => .error error
    | .ok removal => removal.sweepAllBy terms

/-- Sweep for the pending names, the latest first, for at most `limit` names. -/
def drainBy : Nat → Removal → Except ε Removal
  | 0, removal => .ok removal
  | limit + 1, removal =>
    match removal.pending.dropWhile removal.processed.contains with
    | [] => .ok { removal with pending := [] }
    | name :: pending =>
      match sweep { removal with pending } name with
      | .error error => .error error
      | .ok removal => drainBy limit { removal with processed := removal.processed ++ [name] }

/-- Comment out reflective code until no new name turns up. Every name is a run of characters of
the source and is swept once, so the length of the source bounds the number of sweeps. -/
def removeBy (terms : List Text) (source : Text) : Except ε Removal :=
  match ({ text := source } : Removal).sweepAllBy sweep terms with
  | .error error => .error error
  | .ok removal => removal.drainBy sweep (source.length + 1)

end Loops

/-- Sweep for a list of terms whose patterns are at hand. -/
def sweepAll (removal : Removal) (terms : List Text) : Except RemovalError Removal :=
  removal.sweepAllBy sweep terms

/-- Sweep for the pending names when every name makes a pattern. -/
def drain (limit : Nat) (removal : Removal) : Except RemovalError Removal :=
  removal.drainBy sweep limit

theorem sweepAll_nil (removal : Removal) : removal.sweepAll [] = .ok removal := rfl

theorem sweepAll_cons (removal : Removal) (term : Text) (terms : List Text) :
    removal.sweepAll (term :: terms) =
      match removal.sweep term with
      | .error error => .error error
      | .ok removal => removal.sweepAll terms := by
  rw [sweepAll, sweepAllBy]
  cases removal.sweep term with
  | error error => rfl
  | ok removal => rfl

theorem drain_zero (removal : Removal) : removal.drain 0 = .ok removal := rfl

theorem drain_succ (limit : Nat) (removal : Removal) :
    removal.drain (limit + 1) =
      match removal.pending.dropWhile removal.processed.contains with
      | [] => .ok { removal with pending := [] }
      | name :: pending =>
        match { removal with pending }.sweep name with
        | .error error => .error error
        | .ok removal =>
          ({ removal with processed := removal.processed ++ [name] } : Removal).drain limit := by
  rw [drain, drainBy]
  cases removal.pending.dropWhile removal.processed.contains with
  | nil => rfl
  | cons name pending =>
      dsimp only
      cases { removal with pending }.sweep name with
      | error error => rfl
      | ok removal => rfl

end Removal

/-- Comment out reflective code when every term makes a pattern. -/
def remove (terms : List Text) (source : Text) : Except RemovalError Removal :=
  Removal.removeBy Removal.sweep terms source

theorem remove_eq (terms : List Text) (source : Text) :
    remove terms source =
      match ({ text := source } : Removal).sweepAll terms with
      | .error error => .error error
      | .ok removal => removal.drain (source.length + 1) := by
  rw [remove, Removal.removeBy, ← Removal.sweepAll]
  cases ({ text := source } : Removal).sweepAll terms with
  | error error => rfl
  | ok removal => rfl

/-- Why a removal that compiles its patterns stops. -/
inductive Interruption where
  | removal (error : RemovalError)
  /-- The pattern for a term cannot be compiled. The messages until then remain. -/
  | pattern (reason : Text) (log : Log)
deriving DecidableEq, Repr

/-- Sweep the text for one term, if its pattern can be compiled. -/
def Removal.compileAndSweep (termError? : Text → Option Text) (removal : Removal) (term : Text) :
    Except Interruption Removal :=
  match termError? term with
  | some reason => .error (.pattern reason removal.log)
  | none => (removal.sweep term).mapError .removal

/-- Comment out reflective code as far as the patterns for its terms can be compiled. -/
def compileAndRemove (termError? : Text → Option Text) (terms : List Text) (source : Text) :
    Except Interruption Removal :=
  Removal.removeBy (Removal.compileAndSweep termError?) terms source

end Unpacking.Reflection
