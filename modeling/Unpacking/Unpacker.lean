import Unpacking.Analysis.Dependencies
import Unpacking.Draft
import Unpacking.Path
import Unpacking.Renaming.Qualified
import Unpacking.Settings.Basic
import Unpacking.Stage.Step

/-!
Synthesis of an unpacker. The entry class of an app and the classes that it needs become one
program whose main method repeats what the app did when it was started on a device.
-/

namespace Unpacking

open Text

/-- A program that unpacks an app. -/
structure Unpacker where
  /-- The name of the generated class. -/
  className : Text
  /-- The name of the generated class with the package of the entry class. -/
  qualifiedName : Text
  /-- The names of the classes that went into the program, the entry class first. -/
  classes : List Text
  /-- The platform imports that nothing is substituted for. -/
  unhandledImports : List Text
  /-- The last stage, which holds the source of the program. -/
  removal : Reflection.Removal
deriving DecidableEq, Repr

/-- The source of the program. -/
def Unpacker.source (unpacker : Unpacker) : Text :=
  unpacker.removal.text

/-- Why there is no unpacker. -/
inductive SynthesisError where
  /-- No class of the app extends the application class of the platform. -/
  | noEntryClass
  /-- A stage could not rewrite its text. The messages until then remain. -/
  | rewrite (error : RewriteError) (log : Log)
  | removal (error : Reflection.RemovalError)
deriving DecidableEq, Repr

namespace Unpacker

/-- A character that a class name may hold, or an underscore in its place. -/
def nameCharacter (c : Char) : Char :=
  if c.isAlphanum then c else '_'

/-- The name of the class that is generated for a package. -/
def classNameFor (settings : SynthesisSettings) (path : Text) : Text :=
  settings.classPrefix ++
    (((Path.fileStem? path).getD []).take settings.maxNameLength).map nameCharacter

/-- The draft of the collected classes, whose names no longer collide. -/
def renamedDraft (toolkit : Toolkit) (classes : List ClassFact) : Except RewriteError Draft :=
  match toolkit.renamer with
  | .error error => .error error
  | .ok renamer =>
    match (Renaming.renameAll renamer [] (classes.map fun fact =>
      (fact.simpleName, fact.source))).1 with
    | .error error => .error error
    | .ok renamed =>
      .ok ((classes.zip renamed).map fun (fact, one) =>
        { className := fact.name, imports := fact.imports, text := one.source })

/-- Free the entry class from the platform: it loses its base class, and its context method
becomes the main method. -/
def freeEntryClass (standIn : Text) (text : Text) : Stage.EntryPoint :=
  Stage.entryPoint standIn (Stage.commentSuperclassCalls (Stage.stripBaseClass text))

/-- The message about the context method. -/
def entryMessage (entry : Stage.EntryPoint) : Text :=
  match entry.parameter with
  | some parameter =>
    "Replaced " ++ Nat.toDigits 10 entry.replacements ++ " uses of " ++ parameter ++ " in main"
  | none => "No attachBaseContext found in entry class"

/-- The draft with its first segment freed from the platform. -/
def freeDraft (toolkit : Toolkit) (standIn : Text) : Draft → Except RewriteError (Draft × Log)
  | [] => .ok ([], [])
  | segment :: rest =>
    let entry := freeEntryClass standIn segment.text
    match entry.parameter.bind toolkit.wordError? with
    | some reason => .error (.pattern reason)
    | none => .ok ({ segment with text := entry.text } :: rest, [entryMessage entry])

/-- The stages that make every member static and free-standing. -/
def makeStatic (text : Text) : Text :=
  Stage.removeSelfReferences (Stage.makeFieldsStatic (Stage.makeMethodsStatic
    (Stage.commentPackageLines text)))

/-- A draft after the substitutions for its platform imports. -/
structure Substituted where
  draft : Draft
  /-- The imports without a rule, each at its first appearance. -/
  unhandled : List Text
  log : Log

/-- Substitute for the platform imports of every segment. -/
def substitute (settings : SynthesisSettings) (path : Text) (draft : Draft) : Substituted :=
  let context : Substitution.Context :=
    { packagePath := path, platformLevel := settings.platformLevel }
  let results := draft.map fun segment =>
    (segment, Substitution.apply settings.platformNamespaces context segment.imports segment.text)
  { draft := results.map fun (segment, progress) => { segment with text := progress.text }
    unhandled := (results.flatMap fun (_, progress) => progress.unhandled).eraseDups
    log := results.flatMap fun (_, progress) => progress.log }

/-- The name of a class inside a package, which may be the default package. -/
def qualified (package name : Text) : Text :=
  if package.isEmpty then name else package ++ "." ++ name

/-- The last messages of a synthesis. -/
def closingLog (qualifiedName : Text) (count : Nat) (unhandled : List Text) : Log :=
  ["Generated " ++ qualifiedName ++ " from " ++ Nat.toDigits 10 count ++ " classes"] ++
    if unhandled.isEmpty then [] else Log.enumeration "Unhandled imports" unhandled

/-- The draft of the collected classes under their new names, with the entry class freed from the
platform. -/
def freedDraft (toolkit : Toolkit) (settings : SynthesisSettings) (path : Text)
    (entry : ClassFact) (classes : List ClassFact) : Except RewriteError (Draft × Log) :=
  match renamedDraft toolkit classes with
  | .error error => .error error
  | .ok draft =>
    match toolkit.wordError? entry.simpleName with
    | some reason => .error (.pattern reason)
    | none =>
      freeDraft toolkit settings.contextStandIn
        (draft.mapText (Stage.renameClass entry.simpleName (classNameFor settings path)))

/-- The collected classes when only their reflection is left to remove. -/
structure Prepared where
  draft : Draft
  /-- The platform imports that nothing is substituted for. -/
  unhandled : List Text
  log : Log

/-- Carry the collected classes through all stages before the removal of reflection. -/
def prepare (toolkit : Toolkit) (settings : SynthesisSettings) (path : Text) (entry : ClassFact)
    (classes : List ClassFact) : Except RewriteError Prepared :=
  match freedDraft toolkit settings path entry classes with
  | .error error => .error error
  | .ok (freed, entryLog) =>
    let substituted := substitute settings path (freed.mapText makeStatic)
    .ok {
      draft := substituted.draft.mapText
        (Stage.commentPlatformImports settings.platformNamespaces)
      unhandled := substituted.unhandled
      log := entryLog ++ substituted.log }

/-- Synthesize the unpacker of an app from its entry class. -/
def synthesizeFrom (toolkit : Toolkit) (settings : SynthesisSettings) (path : Text)
    (facts : Facts) (entry : ClassFact) : Except SynthesisError (Unpacker × Log) :=
  let classes := Dependencies.collect entry facts
  let className := classNameFor settings path
  let qualifiedName := qualified entry.package className
  match prepare toolkit settings path entry classes with
  | .error error => .error (.rewrite error (Dependencies.log classes))
  | .ok prepared =>
    let log := Dependencies.log classes ++ prepared.log
    match Reflection.compileAndRemove toolkit.termError? Reflection.vocabulary
      prepared.draft.merged with
    | .error (.pattern reason found) => .error (.rewrite (.pattern reason) (log ++ found))
    | .error (.removal error) => .error (.removal error)
    | .ok removal =>
      .ok ({
        className
        qualifiedName
        classes := classes.map ClassFact.name
        unhandledImports := prepared.unhandled
        removal },
        log ++ removal.log ++ closingLog qualifiedName classes.length prepared.unhandled)

/-- Synthesize the unpacker of an app, if it has an entry class. -/
def synthesize (toolkit : Toolkit) (settings : SynthesisSettings) (path : Text) (facts : Facts) :
    Option ClassFact → Except SynthesisError (Unpacker × Log)
  | none => .error .noEntryClass
  | some entry => synthesizeFrom toolkit settings path facts entry

end Unpacker

end Unpacking
