import Unpacking.Analysis.Detection

/-!
The verdict about one app, its row in the combined table and its result file. An app is packed when
its manifest declares components whose classes are not in the payload, because they appear only
when the app runs.
-/

namespace Unpacking

open Text

namespace Packing

/-- The declared classes that the payload lacks. -/
def missing (declared payload : NameSet) : NameSet :=
  declared.difference payload

/-- An app is packed when a declared class is missing. -/
def isPacked (missing : NameSet) : Bool :=
  !missing.isEmpty

end Packing

/-- How the hidden code of an app is restored when it runs. -/
inductive Packer where
  /-- The app is not packed. -/
  | unpacked
  /-- A class loader of the managed runtime restores the code. -/
  | managed
  /-- No managed loader is in sight, so native code restores it. -/
  | native
deriving DecidableEq, Repr

/-- The written form of a packer. -/
def Packer.name : Packer → Text
  | .unpacked => "NONE"
  | .managed => "MANAGED"
  | .native => "NATIVE"

/-- The verdict about one app. -/
structure Verdict where
  packageName : Text
  /-- The package of the application class. -/
  applicationPackage : Option Text := none
  packer : Packer := .unpacked
  usesReflection : Bool := false
  reflectionInApp : Bool := false
  usesLoading : Bool := false
  loadingInApp : Bool := false
  loadingPackages : NameSet := .empty
  reflectivePackages : NameSet := .empty

namespace Verdict

/-- Add what the detector of class loading found. -/
def addLoading (verdict : Verdict) (found : Detection) : Verdict :=
  if found.used then
    { verdict with
      usesLoading := true
      loadingInApp := verdict.loadingInApp || found.inApp
      loadingPackages := verdict.loadingPackages.insertAll found.packages.toList }
  else verdict

/-- Add what the detector of reflection found. -/
def addReflection (verdict : Verdict) (found : Detection) : Verdict :=
  if found.used then
    { verdict with
      usesReflection := true
      reflectionInApp := verdict.reflectionInApp || found.inApp
      reflectivePackages := verdict.reflectivePackages.insertAll found.packages.toList }
  else verdict

/-- The written form of a flag. -/
def flag (value : Bool) : Text :=
  if value then "YES" else "NO"

/-- The written form of the application package. -/
def applicationName (verdict : Verdict) : Text :=
  verdict.applicationPackage.getD "null"

/-- The columns of the combined table. -/
def columns : List Text :=
  ["package_name", "application_subclass_package_name", "packer_type", "reflection", "dcl",
    "reflection_in_app", "dcl_in_app"]

/-- The values of the columns. -/
def cells (verdict : Verdict) : List Text :=
  [verdict.packageName, verdict.applicationName, verdict.packer.name,
    flag verdict.usesReflection, flag verdict.usesLoading, flag verdict.reflectionInApp,
    flag verdict.loadingInApp]

/-- The header of the combined table. -/
def tableHeader : Text :=
  join "\t" columns

/-- The row of the combined table, closed by a line feed. -/
def tableRow (verdict : Verdict) : Text :=
  join "\t" verdict.cells ++ "\n"

/-- A line of the result file. -/
def entry (key value : Text) : Text :=
  key ++ "=" ++ value ++ "\n"

/-- The result file: the columns with their values, then the packages that use reflection, then
those that load classes. -/
def resultFile (verdict : Verdict) : Text :=
  (columns.zip verdict.cells).flatMap (fun (key, value) => entry key value) ++
    verdict.reflectivePackages.toList.flatMap (entry "reflective_package_name") ++
    verdict.loadingPackages.toList.flatMap (entry "dcl_package_name")

end Verdict

end Unpacking
