import Unpacking.Text.Basic

/-!
The settings of a run, with their defaults.
-/

namespace Unpacking

/-- The settings of the synthesis of unpackers. -/
structure SynthesisSettings where
  /-- The beginning of the name of a generated class. -/
  classPrefix : Text := "Unpacker_"
  /-- The number of characters of the package name that follow it. -/
  maxNameLength : Nat := 10
  /-- The expression that stands in for the application context. -/
  contextStandIn : Text := "new Context()"
  /-- The namespaces of imports that exist on a device only. -/
  platformNamespaces : List Text := ["android", "androidx", "com.android", "dalvik", "com.xiaomi"]
  /-- The level of the platform that the unpacker reports. -/
  platformLevel : Nat := 30
deriving DecidableEq, Repr

/-- The settings of a run. -/
structure Settings where
  /-- The number of packages that are analysed at the same time. -/
  threads : Nat := 20
  /-- The time that a package may take; zero sets no limit. -/
  timeoutSeconds : Nat := 600
  /-- The decompiler for packages that are not decompiled yet. -/
  decompilerPath : Text := "jadx"
  /-- Whether an app that is not packed is analysed further. -/
  continueUnpacked : Bool := true
  /-- Whether unpackers are synthesized. -/
  synthesize : Bool := true
  /-- Whether the sources of unpackers are written to files. -/
  writeUnpackers : Bool := true
  synthesis : SynthesisSettings := {}
deriving DecidableEq, Repr

/-- The time limit for a package in seconds, if there is one. -/
def Settings.timeout? (settings : Settings) : Option Nat :=
  if settings.timeoutSeconds = 0 then none else some settings.timeoutSeconds

end Unpacking
