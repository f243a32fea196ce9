import Unpacking.Log
import Unpacking.Package.Facts

/-!
The entry class of an app: the subclass of the platform's application class that the manifest
names, or else the candidate with the smallest name.
-/

namespace Unpacking.EntryClass

open Text

/-- The application class of the platform. -/
def applicationBase : Text :=
  "android.app.Application"

/-- The part of a name behind its last dot. -/
def lastPart (name : Text) : Text :=
  match cutLast? '.' name with
  | some (_, last) => last
  | none => name

/-- A class extends a base class directly. A bare name counts only with the matching import. -/
def extendsBase (base : Text) (fact : ClassFact) : Bool :=
  match fact.superclass with
  | some superclass =>
    superclass == base || (superclass == lastPart base && fact.imports.contains base)
  | none => false

/-- The classes that extend a base class, in the order of the facts. -/
def candidates (base : Text) (facts : Facts) : List ClassFact :=
  facts.classes.filter (extendsBase base)

/-- The entry class: the preferred one if it is a candidate, else the first candidate. -/
def resolve (base : Text) (preferred : Option Text) (facts : Facts) : Option ClassFact :=
  let found := candidates base facts
  match preferred.bind fun name => found.find? fun fact => fact.name == name with
  | some fact => some fact
  | none => found.head?

/-- The messages about the choice of the entry class. -/
def log (base : Text) (preferred : Option Text) (facts : Facts) : Log :=
  let names := (candidates base facts).map ClassFact.name
  (if names.length > 1 then Log.enumeration "Application subclass candidates" names else []) ++
    match resolve base preferred facts with
    | some fact => ["Found Application subclass: " ++ fact.name]
    | none => []

end Unpacking.EntryClass
