import Unpacking.Log
import Unpacking.Package.Facts

/-!
The classes that the entry class needs from its own package. A class needs another one when its
source holds the simple name of the other, so a name also counts inside a longer one.
-/

namespace Unpacking.Dependencies

open Text

/-- The simple name of the generated class of resource numbers. -/
def resourceClass : Text :=
  "R"

/-- The classes that may be collected besides the entry class. -/
def candidates (entry : ClassFact) (facts : Facts) : List ClassFact :=
  facts.classes.filter fun fact =>
    fact.name != entry.name && fact.package == entry.package && fact.simpleName != resourceClass

/-- The classes other than a given one. -/
def without (fact : ClassFact) (classes : List ClassFact) : List ClassFact :=
  classes.filter fun other => other.name != fact.name

/-- Whether a class is among others. -/
def isAmong (fact : ClassFact) (classes : List ClassFact) : Bool :=
  classes.any fun other => other.name == fact.name

theorem length_without_lt {fact : ClassFact} {classes : List ClassFact}
    (among : isAmong fact classes = true) : (without fact classes).length < classes.length := by
  obtain ⟨other, member, same⟩ := List.any_eq_true.mp among
  refine List.length_filter_lt_length_iff_exists.mpr ⟨other, member, ?_⟩
  simpa using same

/-- Collect depth first: take the class on top of the stack if it is still left over, and put the
leftover classes that it refers to on the stack. -/
def collectFrom (left stack : List ClassFact) : List ClassFact :=
  match stack with
  | [] => []
  | next :: stack =>
    if isAmong next left then
      next :: collectFrom (without next left) ((without next left).filter next.refersTo ++ stack)
    else collectFrom left stack
termination_by (left.length, stack.length)
decreasing_by
  · rename_i among
    exact Prod.Lex.left _ _ (length_without_lt among)
  · apply Prod.Lex.right
    simp

/-- The entry class and every class that it reaches, in the order of their discovery. -/
def collect (entry : ClassFact) (facts : Facts) : List ClassFact :=
  collectFrom (entry :: candidates entry facts) [entry]

/-- The messages about the collected classes, which leave out the entry class. -/
def log (collected : List ClassFact) : Log :=
  (collected.drop 1).map fun fact => "Adding class " ++ fact.name ++ " to referenced classes"

end Unpacking.Dependencies
