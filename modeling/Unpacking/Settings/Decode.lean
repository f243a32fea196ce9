import Unpacking.Settings.Basic

/-!
Settings from the members of a document. The formats differ in what they take for a number, a flag
or a text, so a format says how it reads them; the rest is common. Unknown members do not count,
and a known member counts only once.
-/

namespace Unpacking.Settings

open Text

/-- How a format reads the values of settings. -/
structure Format (α : Type) where
  natural? : α → Option Nat
  flag? : α → Option Bool
  text? : α → Option Text
  texts? : α → Option (List Text)
  /-- The members of a group; the names of its fields are given in order. -/
  members? : List Text → α → Option (List (Text × α))

/-- The largest value of a setting that is a word of some bits. -/
def bounded? (bits : Nat) (value : Option Nat) : Option Nat :=
  value.bind fun number => if number < Nat.pow 2 bits then some number else none

/-- The value of a field: a default if there is none, and a failure if there are several. -/
def field? {α β : Type} (members : List (Text × α)) (read : α → Option β) (default : β)
    (name : Text) : Option β :=
  match members.filter fun member => member.1 == name with
  | [] => some default
  | [member] => read member.2
  | _ => none

/-- The names of the settings of synthesis, in order. -/
def synthesisFields : List Text :=
  ["class_prefix", "max_name_len", "context_stand_in", "platform_namespaces", "sdk_int"]

/-- The settings of synthesis from their members. -/
def decodeSynthesis {α : Type} (format : Format α) (members : List (Text × α)) :
    Option SynthesisSettings := do
  let base : SynthesisSettings := {}
  let word (bits : Nat) (value : α) := bounded? bits (format.natural? value)
  let classPrefix ← field? members format.text? base.classPrefix "class_prefix"
  let maxNameLength ← field? members (word 64) base.maxNameLength "max_name_len"
  let contextStandIn ← field? members format.text? base.contextStandIn "context_stand_in"
  let platformNamespaces ←
    field? members format.texts? base.platformNamespaces "platform_namespaces"
  let platformLevel ← field? members (word 32) base.platformLevel "sdk_int"
  pure { classPrefix, maxNameLength, contextStandIn, platformNamespaces, platformLevel }

/-- The settings of a run from their members. -/
def decode {α : Type} (format : Format α) (members : List (Text × α)) : Option Settings := do
  let base : Settings := {}
  let word (value : α) := bounded? 64 (format.natural? value)
  let group (value : α) := (format.members? synthesisFields value).bind (decodeSynthesis format)
  let threads ← field? members word base.threads "threads"
  let timeoutSeconds ← field? members word base.timeoutSeconds "timeout_secs"
  let decompilerPath ← field? members format.text? base.decompilerPath "jadx_path"
  let continueUnpacked ← field? members format.flag? base.continueUnpacked "continue_unpacked"
  let synthesize ← field? members format.flag? base.synthesize "synthesize"
  let writeUnpackers ← field? members format.flag? base.writeUnpackers "write_unpackers"
  let synthesis ← field? members group base.synthesis "synthesis"
  pure { threads, timeoutSeconds, decompilerPath, continueUnpacked, synthesize, writeUnpackers,
         synthesis }

end Unpacking.Settings
