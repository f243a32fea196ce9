import Unpacking.Batch.Run
import Unpacking.Command.Request
import Unpacking.Command.Usage
import Unpacking.Package.Decompiled
import Unpacking.Settings.Load

/-!
The run that a command line asks for.
-/

namespace Unpacking.Command

open Text

/-- The settings of a run: those of a file, changed by what the command line says. -/
def Arguments.settings (arguments : Arguments) (tree : Tree) : Except RunError Settings := do
  let settings ←
    match arguments.settingsFile with
    | some path => Settings.load tree path
    | none => Settings.loadDefault tree arguments.input
  pure { settings with
    threads := arguments.threads.getD settings.threads
    timeoutSeconds := arguments.timeoutSeconds.getD settings.timeoutSeconds
    decompilerPath := arguments.decompilerPath.getD settings.decompilerPath
    synthesize := settings.synthesize && !arguments.skipSynthesis }

/-- The packages that a run is about. -/
def Arguments.packages (arguments : Arguments) (tree : Tree) :
    Except RunError (List PackageInput) := do
  let blacklist ←
    match arguments.blacklist with
    | some path => Discovery.loadBlacklist tree path
    | none => .ok []
  Discovery.find tree blacklist arguments.input

/-- The name of the directory of a run that begins at a moment, counted in seconds. -/
def runName (moment : Nat) : Text :=
  "unboxing_results_" ++ Nat.toDigits 10 moment

/-- Analyse the packages, and give the tree of files afterwards with a summary. Without packages
there is none, and nothing is written. -/
def Arguments.execute (arguments : Arguments) (moment : Nat) (tree : Tree) :
    Except RunError (Tree × Option Summary) := do
  let settings ← arguments.settings tree
  let packages ← arguments.packages tree
  if packages.isEmpty then pure (tree, none)
  else
    let tree ← Layout.makeDirectory tree arguments.output
    let (tree, layout) ← Layout.create tree arguments.output (runName moment)
    let decompiler : Decompiler :=
      { tool := settings.decompilerPath
        workDirectory := layout.decompiledDirectory
        parser := .ok Java.parser }
    let loader : Batch.Loader := fun tree path =>
      let (tree, facts) := decompiler.load tree path
      (tree, .loaded facts)
    let (tree, ended) := Batch.run settings layout (fun _ => none) {} tree
      (packages.map loader.job)
    let summary ← ended
    pure (tree, some summary)

/-- Report what came of a run: the tree of files afterwards, and what is printed. -/
def Arguments.conclude (arguments : Arguments) (colors : Bool) (tree : Tree) :
    Option Summary → Except RunError (Tree × Text)
  | none => .ok (tree, Report.line ((Style.plain .yellow).paint colors "No packages found."))
  | some summary => Report.deliver arguments.format colors tree summary

/-- The end of a command: its status, what it prints, and the tree of files afterwards. -/
structure Outcome where
  status : Nat
  printed : Text
  tree : Tree

/-- Follow a command line. -/
def respond (arguments : List Text) (moment : Nat) (tree : Tree) : Outcome :=
  match Request.parse? arguments with
  | none => { status := 2, printed := [], tree }
  | some .help => { status := 0, printed := helpText, tree }
  | some .version => { status := 0, printed := versionText, tree }
  | some (.run wishes) =>
    let result := do
      let (tree, summary?) ← wishes.execute moment tree
      wishes.conclude false tree summary?
    match result with
    | .ok (tree, printed) => { status := 0, printed, tree }
    | .error _ => { status := 1, printed := [], tree }

end Unpacking.Command
