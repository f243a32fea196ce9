import Unpacking.Analysis.EntryClass
import Unpacking.Analysis.Verdict
import Unpacking.Package.Manifest
import Unpacking.Unpacker

/-!
The analysis of one package: is it packed, does it load classes or use reflection, and which
program unpacks it.
-/

namespace Unpacking.Analysis

open Text

/-- Everything learned about one package. -/
structure Report where
  verdict : Verdict
  /-- The declared classes that the payload lacks. -/
  missing : NameSet
  /-- The unpacker, if one was asked for and could be made. -/
  unpacker : Option Unpacker := none
  /-- Why there is no unpacker although one was asked for. -/
  unpackerError : Option Text := none

/-- A package is packed when a declared class is missing. -/
def Report.isPacked (report : Report) : Bool :=
  Packing.isPacked report.missing

/-- Why an analysis ends without a report. -/
inductive Failure where
  | load (error : LoadError)
  | cancelled
  /-- The removal of reflection could not be carried out. -/
  | removal (error : Reflection.RemovalError)

/-- What an analysis leaves behind: a report or a failure, and its log in both cases. -/
structure Outcome where
  result : Except Failure Report
  log : Log

/-- The name of a package file, or the whole path if it has none. -/
def stemOrPath (path : Text) : Text :=
  (Path.fileStem? path).getD path

/-- What the detectors start from. -/
structure Subject where
  path : Text
  facts : Facts
  manifest : Manifest
  packageName : Text
  entry : Option ClassFact

namespace Subject

/-- The subject of a package. Without a manifest the package is named for its file. -/
def of (path : Text) (facts : Facts) : Subject :=
  let manifest := (facts.manifest?.map Manifest.parse).getD {}
  { path
    facts
    manifest
    packageName := manifest.package.getD (stemOrPath path)
    entry := EntryClass.resolve EntryClass.applicationBase manifest.applicationClass facts }

/-- The package of the entry class, if the entry class is in one. -/
def applicationPackage (subject : Subject) : Option Text :=
  subject.entry.bind fun entry => if entry.package.isEmpty then none else some entry.package

/-- The namespaces of the app. -/
def scope (subject : Subject) : Scope :=
  { packageName := subject.packageName, applicationPackage := subject.applicationPackage }

/-- The declared classes that the payload lacks. -/
def missing (subject : Subject) : NameSet :=
  Packing.missing subject.manifest.componentClasses subject.facts.payload

/-- The verdict before any detector has run. -/
def blankVerdict (subject : Subject) : Verdict :=
  { packageName := subject.packageName, applicationPackage := subject.applicationPackage }

/-- The message about a missing manifest. -/
def manifestLog (subject : Subject) : Log :=
  if subject.facts.manifest?.isNone then [Log.error "No AndroidManifest.xml in package"] else []

/-- The messages about packing. -/
def packingLog (subject : Subject) : Log :=
  if Packing.isPacked subject.missing then
    ("APK is packed" : Text) :: Log.enumeration "Missing classes in dex" subject.missing.toList
  else ["APK is not packed"]

/-- The messages before any detector has run. -/
def log (subject : Subject) : Log :=
  subject.manifestLog ++ ["Package name: " ++ subject.packageName] ++
    EntryClass.log EntryClass.applicationBase subject.manifest.applicationClass subject.facts ++
    subject.packingLog

/-- What the detector of class loading finds. -/
def loading (subject : Subject) : Detection :=
  Detector.dynamicLoading.detect subject.scope subject.facts.classes

/-- The packer of the app. A packed app that loads classes unpacks itself by managed code. -/
def packer (subject : Subject) : Packer :=
  if !Packing.isPacked subject.missing then .unpacked
  else if subject.loading.packages.isEmpty then .native
  else .managed

/-- The messages about class loading and the packer. -/
def loadingLog (subject : Subject) : Log :=
  Detector.dynamicLoading.log subject.facts.classes ++
    Log.enumeration "DCL packages" subject.loading.packages.toList ++
    ["Packer Type: " ++ subject.packer.name]

/-- The verdict after the detector of class loading has run. -/
def loadingVerdict (subject : Subject) : Verdict :=
  { subject.blankVerdict.addLoading subject.loading with packer := subject.packer }

/-- What the detector of reflection finds. -/
def reflection (subject : Subject) : Detection :=
  Detector.reflection.detect subject.scope subject.facts.classes

/-- The reflection that a synthesis has neutralised, which lies in the package of the entry
class. -/
def removedReflection (subject : Subject) (unpacker : Unpacker) : Detection :=
  match subject.entry with
  | some entry =>
    if unpacker.removal.hits > 0 then ({} : Detection).record subject.scope entry.package else {}
  | none => {}

end Subject

/-- The outcome of the part of an analysis that synthesizes an unpacker. -/
structure Synthesis where
  unpacker : Option Unpacker := none
  error : Option Text := none
  removed : Detection := {}
  log : Log := []

/-- What is said when an unpacker could not be written. -/
def rewriteFailed (error : RewriteError) : Text :=
  "Rewrite failed: " ++ error.message

/-- Synthesize an unpacker if the settings ask for one. An app without an entry class has none, nor
has one whose classes cannot be rewritten, which is no failure of the analysis. -/
def synthesis (toolkit : Toolkit) (settings : Settings) (subject : Subject) :
    Except Reflection.RemovalError Synthesis :=
  if !settings.synthesize then .ok {}
  else
    match Unpacker.synthesize toolkit settings.synthesis subject.path subject.facts
      subject.entry with
    | .ok (unpacker, log) =>
      .ok { unpacker := some unpacker, removed := subject.removedReflection unpacker, log }
    | .error .noEntryClass =>
      .ok {
        error := some "No Application subclass found".toList
        log := ["No Application subclass found in the APK"] }
    | .error (.rewrite error log) =>
      .ok {
        error := some (rewriteFailed error)
        log := log ++ [Log.error ("Error generating unpacker: " ++ rewriteFailed error)] }
    | .error (.removal error) => .error error

/-- Analyse the facts about a package. -/
def runOn (toolkit : Toolkit) (settings : Settings) (subject : Subject) : Outcome :=
  if !Packing.isPacked subject.missing && !settings.continueUnpacked then
    { result := .ok { verdict := subject.blankVerdict, missing := subject.missing }
      log := subject.log }
  else
    let before := subject.log ++ subject.loadingLog
    match synthesis toolkit settings subject with
    | .error error => { result := .error (.removal error), log := before }
    | .ok made =>
      let verdict := (subject.loadingVerdict.addReflection made.removed).addReflection
        subject.reflection
      { result := .ok {
          verdict
          missing := subject.missing
          unpacker := made.unpacker
          unpackerError := made.error }
        log := before ++ made.log ++ Detector.reflection.log subject.facts.classes ++
          Log.enumeration "Reflective packages" verdict.reflectivePackages.toList }

/-- Analyse a package whose facts were loaded from a path. A failure to load comes before a
cancellation. -/
def run (toolkit : Toolkit) (settings : Settings) (cancelled : Bool) (path : Text)
    (loaded : Except LoadError Facts) : Outcome :=
  let opening := ["Loading APK: " ++ path]
  match loaded with
  | .error error => { result := .error (.load error), log := opening }
  | .ok facts =>
    if cancelled then { result := .error .cancelled, log := opening }
    else
      let outcome := runOn toolkit settings (.of path facts)
      { outcome with log := opening ++ outcome.log }

end Unpacking.Analysis
