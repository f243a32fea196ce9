import Unpacking.Java.Parser
import Unpacking.Renaming.Fresh

/-!
What a synthesis is given and does not decide itself: a parser for Java, what it takes to compile a
pattern, and the order in which a map of names is visited.
-/

namespace Unpacking

/-- Why a source cannot be rewritten. -/
inductive RewriteError where
  /-- A pattern cannot be compiled. -/
  | pattern (reason : Text)
  /-- A class cannot be parsed. -/
  | parse (className reason : Text)
deriving DecidableEq, Repr

/-- The wording of an error. -/
def RewriteError.message : RewriteError → Text
  | .pattern reason => "Invalid rewrite pattern: " ++ reason
  | .parse className reason => "Failed to parse " ++ className ++ ": " ++ reason

/-- The order in which maps of names are visited. Every name is visited once. -/
structure MapOrder where
  visit : Renaming.NewNames → Renaming.NewNames
  perm : ∀ names, (visit names).Perm names

/-- The order in which the names were put into the map. -/
def MapOrder.declared : MapOrder where
  visit names := names
  perm names := .refl names

/-- What renames the identifiers of classes. -/
structure Renamer where
  parser : Java.Parser := Java.parser
  /-- Why the pattern for a whole word cannot be compiled, if so. -/
  wordError? : Text → Option Text := fun _ => none
  order : MapOrder := .declared

/-- What a synthesis works with. -/
structure Toolkit where
  /-- The parser, or why none can be made. -/
  parser : Except Text Java.Parser := .ok Java.parser
  /-- Why the pattern for a whole word cannot be compiled, if so. -/
  wordError? : Text → Option Text := fun _ => none
  /-- Why the pattern for a reflective term cannot be compiled, if so. -/
  termError? : Text → Option Text := fun _ => none
  order : MapOrder := .declared

/-- A renamer, if there is a parser for it. -/
def Toolkit.renamer (toolkit : Toolkit) : Except RewriteError Renamer :=
  match toolkit.parser with
  | .error reason => .error (.parse [] reason)
  | .ok parser => .ok { parser, wordError? := toolkit.wordError?, order := toolkit.order }

end Unpacking
