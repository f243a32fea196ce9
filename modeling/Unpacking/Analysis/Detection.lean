import Unpacking.Analysis.Scope
import Unpacking.Log
import Unpacking.Package.ClassFact
import Unpacking.Reflection.Term
import Unpacking.Text.NameSet

/-!
Detection of keywords in the sources of classes. A keyword anywhere in a source, comments included,
is a hit for the package of the class.
-/

namespace Unpacking

open Text

/-- What a detector found. -/
structure Detection where
  used : Bool := false
  inApp : Bool := false
  /-- The packages of the classes with a hit. -/
  packages : NameSet := .empty

namespace Detection

/-- A detection with one hit more. -/
def record (scope : Scope) (detection : Detection) (package : Text) : Detection where
  used := true
  inApp := detection.inApp || scope.contains package
  packages := detection.packages.insert package

end Detection

/-- A vocabulary of keywords, and the word that names it in the log. -/
structure Detector where
  label : Text
  keywords : List Text

namespace Detector

/-- The detector of class loading at run time. -/
def dynamicLoading : Detector where
  label := "dcl"
  keywords := ["DexClassLoader", "PathClassLoader", "InMemoryDexClassLoader",
    "BaseDexClassLoader", "loadDex", "OpenMemory"]

/-- The detector of reflection. -/
def reflection : Detector where
  label := "reflective"
  keywords := Reflection.vocabulary

/-- The hits of a detector: the classes in order, and for each of them its keywords in order. -/
def hits (detector : Detector) (classes : List ClassFact) : List (ClassFact × Text) :=
  classes.flatMap fun fact =>
    (detector.keywords.filter fun keyword => occursIn keyword fact.source).map (fact, ·)

/-- What a detector finds in some classes. -/
def detect (detector : Detector) (scope : Scope) (classes : List ClassFact) : Detection :=
  (detector.hits classes).foldl (fun found hit => found.record scope hit.1.package) {}

/-- The messages of a detector, one for each hit. -/
def log (detector : Detector) (classes : List ClassFact) : Log :=
  (detector.hits classes).map fun (fact, keyword) =>
    "Found " ++ detector.label ++ " keyword '" ++ keyword ++ "' in class '" ++ fact.name ++ "'"

end Detector

end Unpacking
