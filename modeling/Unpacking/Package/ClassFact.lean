import Unpacking.Text.Basic

/-!
What a decompiler tells about one class of a package.
-/

namespace Unpacking

open Text

/-- The form in which a payload lists a class: slashes for dots, and the ending of class files. -/
def payloadName (name : Text) : Text :=
  substitute '.' "/" name ++ ".class"

/-- A decompiled top-level class. -/
structure ClassFact where
  /-- The full name. -/
  name : Text
  source : Text
  /-- The superclass, by its full name where that could be resolved. -/
  superclass : Option Text := none
  imports : List Text := []
deriving DecidableEq, Repr

namespace ClassFact

/-- The package of a class, which is empty for the default package. -/
def package (fact : ClassFact) : Text :=
  match cutLast? '.' fact.name with
  | some (package, _) => package
  | none => []

/-- The name of a class within its package. -/
def simpleName (fact : ClassFact) : Text :=
  match cutLast? '.' fact.name with
  | some (_, name) => name
  | none => fact.name

/-- A class refers to another one when its source holds the simple name of the other. -/
def refersTo (fact other : ClassFact) : Bool :=
  occursIn other.simpleName fact.source

end ClassFact

end Unpacking
