import Unpacking.File.Tree

/-!
Why a whole run ends without a result.
-/

namespace Unpacking

/-- Why a run ends without a result. -/
inductive RunError where
  | unreadableSettings (path : Text)
  | malformedYaml
  | malformedToml
  /-- The settings are neither of the two formats. -/
  | malformedSettings
  | unreadableBlacklist (path : Text)
  | noInputDirectory (path : Text)
  | cannotCreate (path : Text)
  | cannotWrite (path : Text)
  | file (error : FileError)
deriving DecidableEq, Repr

/-- The wording of an error. -/
def RunError.message : RunError → Text
  | .unreadableSettings path => "Failed to read config file: " ++ path
  | .malformedYaml => "Failed to parse YAML config"
  | .malformedToml => "Failed to parse TOML config"
  | .malformedSettings => "Failed to parse config file"
  | .unreadableBlacklist path => "Failed to read blacklist: " ++ path
  | .noInputDirectory path => "Input directory does not exist: " ++ path
  | .cannotCreate path => "Failed to create " ++ path
  | .cannotWrite path => "Failed to write " ++ path
  | .file error => error.message

end Unpacking
