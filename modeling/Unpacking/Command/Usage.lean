import Unpacking.Report.Document
import Unpacking.Text.Lines

/-!
What the program says about itself.
-/

namespace Unpacking.Command

open Text

/-- The name of the program. -/
def programName : Text :=
  "apkunbox"

/-- The name and the version of the program. -/
def versionText : Text :=
  programName ++ " " ++ Report.version ++ "\n"

/-- How the program is called. -/
def usage : Text :=
  "Usage: " ++ programName ++ " [OPTIONS] <INPUT> <OUTPUT>"

/-- The lines of a table whose first column is as wide as its widest field. -/
def columns (rows : List (String × String)) : List Text :=
  let width := rows.foldl (fun width row => Nat.max width row.1.length) 0
  rows.map fun (left, right) =>
    "  " ++ left.toList ++ List.replicate (width - left.length + 2) ' ' ++ right.toList

/-- The help of the program. -/
def helpText : Text :=
  let description : Text :=
    "Detect packed Android apps and synthesize standalone reproductions of their unpacking stubs"
  let places := columns [
    ("<INPUT>", "Directory holding `.apk` files or decompiled package directories"),
    ("<OUTPUT>", "Directory the run's results are written under")]
  let options := columns [
    ("-b, --blacklist <BLACKLIST>", "File listing packages to skip, one per line"),
    ("-c, --config <CONFIG>", "Path to configuration file"),
    ("-t, --threads <THREADS>", "Number of packages analyzed at once"),
    ("    --timeout-secs <TIMEOUT_SECS>", "Per-package timeout in seconds (0 disables it)"),
    ("    --jadx <PATH>", "jadx executable"),
    ("-f, --format <FORMAT>",
      "Output format [default: terminal] [possible values: terminal, json]"),
    ("    --no-synthesis", "Skip unpacker synthesis"),
    ("-v, --verbose", "Verbose output"),
    ("-q, --quiet", "Quiet mode - only output results"),
    ("-h, --help", "Print help"),
    ("-V, --version", "Print version")]
  unlines ([description, [], usage, [], "Arguments:".toList] ++ places ++
    [[], "Options:".toList] ++ options) true

end Unpacking.Command
