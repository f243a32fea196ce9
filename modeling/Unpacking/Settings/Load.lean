import Unpacking.Path
import Unpacking.RunError
import Unpacking.Settings.Formats

/-!
Settings from files.
-/

namespace Unpacking.Settings

open Text

/-- The settings of a text. The extension of the file tells the format; without a known one, YAML
is tried before TOML. -/
def ofText (extension : Text) (text : Text) : Except RunError Settings :=
  if extension == "yml" || extension == "yaml" then
    match ofYaml text with
    | some settings => .ok settings
    | none => .error .malformedYaml
  else if extension == "toml" then
    match ofToml text with
    | some settings => .ok settings
    | none => .error .malformedToml
  else
    match (ofYaml text).or (ofToml text) with
    | some settings => .ok settings
    | none => .error .malformedSettings

/-- The settings of a file. -/
def load (tree : Tree) (path : Text) : Except RunError Settings :=
  match tree.readText path with
  | .ok text => ofText ((Path.extension? path).getD []) text
  | .error _ => .error (.unreadableSettings path)

/-- The names of the files that hold settings, the first one that is there counts. -/
def defaultNames : List Text :=
  [".apkunbox.yml", ".apkunbox.yaml", ".apkunbox.toml", "apkunbox.yml", "apkunbox.yaml",
    "apkunbox.toml"]

/-- The settings of a directory, which are the defaults if it holds no file of settings. -/
def loadDefault (tree : Tree) (directory : Text) : Except RunError Settings :=
  match (defaultNames.map (Path.join directory)).find? tree.has with
  | some path => load tree path
  | none => .ok {}

end Unpacking.Settings
