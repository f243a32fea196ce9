import Unpacking.Line.Basic
import Unpacking.Log
import Unpacking.Stage.Declaration
import Unpacking.Substitution.ClassLoader
import Unpacking.Substitution.DeviceInfo

/-!
The table of platform imports and what is substituted for the uses of each. An import of the
platform that is not in the table is reported as unhandled.
-/

namespace Unpacking

open Text Line

/-- What the substitutions need to know about the package and the platform. -/
structure Substitution.Context where
  /-- The path of the package, which stands in for its installed place. -/
  packagePath : Text
  /-- The reported level of the platform. -/
  platformLevel : Nat

namespace Substitution

/-- What is known about a platform import. -/
inductive Rule where
  /-- The uses on each line of code are replaced. -/
  | replace (change : Text → Text)
  /-- Other stages take care of the import. -/
  | settled

/-- The rule of a platform import. -/
def rule? (context : Context) (name : Text) : Option Rule :=
  if name == "dalvik.system.DexClassLoader" || name == "dalvik.system.PathClassLoader" then
    some (.replace classLoader)
  else if name == "android.os.Build" then
    some (.replace (buildConstants context.platformLevel))
  else if name == "android.content.pm.ApplicationInfo" then
    some (.replace (applicationInfo context.packagePath))
  else if name == "android.util.ArrayMap" then
    some (.replace arrayMap)
  else if name == "android.app.Application" || name == "android.content.Context" then
    some .settled
  else none

/-- A text on its way through the substitutions. -/
structure Progress where
  text : Text
  /-- The imports without a rule, in the order in which they were met. -/
  unhandled : List Text := []
  log : Log := []

/-- Replace on the lines of code only. -/
def onCode (change : Text → Text) (text : Text) : Text :=
  mapLines (fun line => if isCommentOrImport line then line else change line) text

/-- Follow one import. -/
def step (namespaces : List Text) (context : Context) (progress : Progress) (name : Text) :
    Progress :=
  if !Stage.isPlatformName namespaces name then progress
  else
    match rule? context name with
    | some (.replace change) =>
      { progress with
        text := onCode change progress.text
        log := progress.log ++ ["Processing methods from " ++ name ++ " import"] }
    | some .settled => progress
    | none =>
      { progress with
        unhandled := progress.unhandled ++ [name]
        log := progress.log ++ [Log.error ("Unknown android import: " ++ name)] }

/-- Substitute for the uses of every platform import, in the order of the imports. -/
def apply (namespaces : List Text) (context : Context) (imports : List Text) (text : Text) :
    Progress :=
  imports.foldl (step namespaces context) { text }

end Substitution

end Unpacking
