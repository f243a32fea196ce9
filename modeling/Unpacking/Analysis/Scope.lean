import Unpacking.Text.Basic

/-!
The namespaces that count as the app's own code.
-/

namespace Unpacking

open Text

/-- The namespaces of an app: its package and the package of its application class. -/
structure Scope where
  packageName : Text
  applicationPackage : Option Text := none
deriving DecidableEq, Repr

namespace Scope

/-- A package lies in a namespace if it equals it or continues it with a dot. The empty namespace
holds nothing. -/
def isWithin (package space : Text) : Bool :=
  !space.isEmpty &&
    match after? space package with
    | some [] => true
    | some (c :: _) => c == '.'
    | none => false

/-- Whether a package belongs to the app. -/
def contains (scope : Scope) (package : Text) : Bool :=
  isWithin package scope.packageName || scope.applicationPackage.any (isWithin package)

end Scope

end Unpacking
