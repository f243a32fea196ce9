import Unpacking.Package.ClassFact
import Unpacking.Text.NameSet

/-!
The facts about a package: its classes, ordered by name and without repetition, and its decoded
text resources. Loading them can fail.
-/

namespace Unpacking

open Text

/-- Insert a class into a list ordered by name, unless a class of that name is there. -/
def ClassFact.insertInto (fact : ClassFact) : List ClassFact → List ClassFact
  | [] => [fact]
  | first :: rest =>
    if fact.name = first.name then first :: rest
    else if precedes fact.name first.name then fact :: first :: rest
    else first :: fact.insertInto rest

/-- The facts about a package. -/
structure Facts where
  /-- The classes in rising order of their names. -/
  classes : List ClassFact
  /-- The text resources by name. -/
  resources : List (Text × Text) := []

namespace Facts

/-- The name of the manifest among the resources. -/
def manifestName : Text :=
  "AndroidManifest.xml"

/-- Facts from classes in any order; of classes with one name the first counts. -/
def ofClasses (classes : List ClassFact) (resources : List (Text × Text)) : Facts where
  classes := classes.foldl (fun sorted fact => fact.insertInto sorted) []
  resources

/-- The text of a resource. -/
def resource? (facts : Facts) (name : Text) : Option Text :=
  (facts.resources.find? fun entry => entry.1 == name).map Prod.snd

/-- The text of the manifest. -/
def manifest? (facts : Facts) : Option Text :=
  facts.resource? manifestName

/-- The classes of the payload, in payload form. -/
def payload (facts : Facts) : NameSet :=
  NameSet.ofList (facts.classes.map fun fact => payloadName fact.name)

/-- The class of a full name. -/
def find? (facts : Facts) (name : Text) : Option ClassFact :=
  facts.classes.find? fun fact => fact.name == name

end Facts

/-- Why the facts about a package cannot be loaded. -/
inductive LoadError where
  | notFound (path : Text)
  | unreadable (path reason : Text)
  | noSources (path : Text)
  | unparsable (path reason : Text)
  | decompilerFailed (path reason : Text)
deriving DecidableEq, Repr

/-- The wording of an error. -/
def LoadError.message : LoadError → Text
  | .notFound path => "Package not found: " ++ path
  | .unreadable path reason => "Failed to read " ++ path ++ ": " ++ reason
  | .noSources path => "No decompiled Java sources under " ++ path
  | .unparsable path reason => "Failed to parse " ++ path ++ ": " ++ reason
  | .decompilerFailed path reason => "Decompiler failed on " ++ path ++ ": " ++ reason

end Unpacking
