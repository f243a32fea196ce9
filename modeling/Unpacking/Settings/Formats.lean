import Unpacking.Settings.Decode
import Unpacking.Toml.Document
import Unpacking.Yaml.Node

/-!
Settings in the two formats. In YAML a plain scalar is read as whatever its field wants; in TOML
every value has one type.
-/

namespace Unpacking.Settings

open Text

/-- Digits in a base as a number. -/
def digits? (base : Nat) (text : Text) : Option Nat :=
  if text.isEmpty then none
  else text.foldlM (fun value c => do
    let digit ← Toml.digitValue? base c
    pure (base * value + digit)) 0

/-- Whether a zero stands before other digits, which makes a string of a number. -/
def isPadded (text : Text) : Bool :=
  match text with
  | '0' :: rest => !rest.isEmpty && rest.all Char.isDigit
  | _ => false

/-- A natural number as YAML writes it: decimal, or behind a mark hexadecimal, octal or binary. A
plus sign may stand before it. -/
def yamlNatural? (text : Text) : Option Nat :=
  let unsigned := (after? "+" text).getD text
  let marked (mark : Text) (base : Nat) := (after? mark unsigned).bind (digits? base)
  ((marked "0x" 16).or ((marked "0o" 8).or (marked "0b" 2))).or
    (if isPadded unsigned then none else digits? 10 unsigned)

/-- A flag as YAML writes it. -/
def yamlFlag? (text : Text) : Option Bool :=
  if text == "true" || text == "True" || text == "TRUE" then some true
  else if text == "false" || text == "False" || text == "FALSE" then some false
  else none

/-- The text of any scalar. -/
def yamlText? : Yaml.Node → Option Text
  | .scalar _ text => some text
  | _ => none

/-- The text of a plain scalar. -/
def yamlPlain? : Yaml.Node → Option Text
  | .scalar true text => some text
  | _ => none

/-- The members of a mapping, whose keys have to be scalars. Where nothing is written there are no
members. -/
def yamlMembers? : Yaml.Node → Option (List (Text × Yaml.Node))
  | .mapping entries => entries.mapM fun (key, value) => do
      let name ← yamlText? key
      pure (name, value)
  | .scalar true [] => some []
  | _ => none

/-- The texts of a sequence. Where nothing is written there are no texts. -/
def yamlTexts? : Yaml.Node → Option (List Text)
  | .sequence items => items.mapM yamlText?
  | .scalar true [] => some []
  | _ => none

/-- How YAML writes settings. -/
def yamlFormat : Format Yaml.Node where
  natural? := fun node => (yamlPlain? node).bind yamlNatural?
  flag? := fun node => (yamlPlain? node).bind yamlFlag?
  text? := yamlText?
  texts? := yamlTexts?
  members? := fun _ => yamlMembers?

/-- The settings of a YAML text. -/
def ofYaml (text : Text) : Option Settings := do
  let node ← Yaml.parse text
  let members ← yamlMembers? node
  decode yamlFormat members

/-- A natural number of TOML. -/
def tomlNatural? : Toml.Value → Option Nat
  | .integer value => if 0 ≤ value then some value.toNat else none
  | _ => none

/-- A flag of TOML. -/
def tomlFlag? : Toml.Value → Option Bool
  | .boolean value => some value
  | _ => none

/-- A text of TOML. -/
def tomlText? : Toml.Value → Option Text
  | .text text => some text
  | _ => none

/-- The texts of an array of TOML. -/
def tomlTexts? : Toml.Value → Option (List Text)
  | .array items => items.mapM tomlText?
  | .tables items => items.mapM tomlText?
  | _ => none

/-- The members of a group of TOML. The items of an array go to the fields in order, and a time has
no fields that are known. -/
def tomlMembers? (names : List Text) : Toml.Value → Option (List (Text × Toml.Value))
  | .table _ entries => some entries
  | .array items => some (names.zip items)
  | .tables items => some (names.zip items)
  | .datetime => some []
  | _ => none

/-- How TOML writes settings. -/
def tomlFormat : Format Toml.Value where
  natural? := tomlNatural?
  flag? := tomlFlag?
  text? := tomlText?
  texts? := tomlTexts?
  members? := tomlMembers?

/-- The settings of a TOML text. -/
def ofToml (text : Text) : Option Settings := do
  let entries ← Toml.parse text
  decode tomlFormat entries

end Unpacking.Settings
