import Unpacking.Text.Pattern
import Unpacking.Text.Reading

/-!
What an app asks its device becomes a constant or a system property: the build constants, the
places where the app is installed, and the map type of the platform.
-/

namespace Unpacking.Substitution

open Text

/-- The build constants and the property that stands in for each. -/
def buildConstantTable : List (Text × Text) := [
  ("Build.VERSION.RELEASE", "System.getProperty(\"os.version\")"),
  ("Build.SUPPORTED_ABIS", "new String[] \x7b System.getProperty(\"os.arch\") \x7d"),
  ("Build.CPU_ABI", "System.getProperty(\"os.arch\")"),
  ("Build.MANUFACTURER", "System.getProperty(\"java.vendor\")"),
  ("Build.BRAND", "System.getProperty(\"java.vendor\")"),
  ("Build.MODEL", "System.getProperty(\"os.name\")"),
  ("Build.DEVICE", "System.getProperty(\"os.name\")"),
  ("Build.PRODUCT", "System.getProperty(\"os.name\")"),
  ("Build.FINGERPRINT", "System.getProperty(\"java.vm.version\")")]

/-- Replace the platform level and the build constants on a line. -/
def buildConstants (platformLevel : Nat) (line : Text) : Text :=
  buildConstantTable.foldl
    (fun line (constant, property) =>
      (Pattern.wholeWord constant).replaceAll (fun _ => property) line)
    ((Pattern.literal "Build.VERSION.SDK_INT").replaceAll
      (fun _ => Nat.toDigits 10 platformLevel) line)

/-- A text as a string literal of the source: backslashes and quotes are escaped. -/
def quoted (text : Text) : Text :=
  "\"" ++ substitute '"' "\\\"" (substitute '\\' "\\\\" text) ++ "\""

/-- One link of a chain of accesses: a name, perhaps a call without arguments, and a dot. -/
def link? (text : Text) : Option (Unit × Text) := do
  let (_, rest) ← run? isNameCharacter text
  let rest ← after? "." ((after? "()" rest).getD rest)
  pure ((), rest)

/-- The text behind a chain of at least one link and one of some final names as a whole word. -/
def chain? (finals : List Text) (text : Text) : Option Text :=
  (repeats link? text).findSome? fun (links, rest) =>
    if links.isEmpty then none
    else
      finals.findSome? fun name => do
        let rest ← after? name rest
        if isWordAt rest.head? then none else some rest

/-- Replace the places where an app is installed on a line. -/
def applicationInfo (packagePath : Text) (line : Text) : Text :=
  (Pattern.ofReader (chain? ["dataDir"])).replaceAll
    (fun _ => "System.getProperty(\"user.dir\")")
    ((Pattern.ofReader (chain? ["publicSourceDir", "sourceDir"])).replaceAll
      (fun _ => quoted packagePath) line)

/-- Replace the map type of the platform on a line. -/
def arrayMap (line : Text) : Text :=
  (Pattern.wholeWord "ArrayMap").replaceAll (fun _ => "java.util.LinkedHashMap") line

end Unpacking.Substitution
