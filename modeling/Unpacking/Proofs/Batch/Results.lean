import Unpacking.Proofs.Batch.Scheduling

/-!
Result files of packages that fail. The result file of a package is written before its unpacker, so
it stays when the unpacker cannot be written, and the beginning of it stays when its own writing
breaks off. Main statement: `isFile_resultPath_iff` says that these are the only ways in which a
failed package has a result file.
-/

namespace Unpacking.Batch

open Text Unpacking.Tree Layout

variable {layout : Layout} {stem : Text} {disk : Disk} {tree changed : Tree} {entry : Option Entry}

/-! ### Places of result files -/

/-- The place of the result file with a name. -/
def resultPlace (layout : Layout) (name : Text) : Names :=
  layout.base ++ ["results".toList, name]

/-- The path of a file with an extension leads to a name with that extension. -/
theorem exists_goal_append {ending : Text} (free : '/' ∉ ending) (long : 2 < ending.length)
    (front : Text) : ∃ names name, goal (front ++ ending) = names ++ [name ++ ending] := by
  have last (pieces : List Text) {name : Text} (nameFree : '/' ∉ name)
      (cut : fields (· == '/') (front ++ ending) = pieces ++ [name ++ ending]) :
      ∃ names name, goal (front ++ ending) = names ++ [name ++ ending] := by
    refine ⟨pieces.foldl next (start (front ++ ending)).1, name, ?_⟩
    rw [goal, snd_start, cut, List.foldl_append, List.foldl_cons, List.foldl_nil,
      next_of_isPlain (isPlain_append nameFree free long)]
  have single {name : Text} (nameFree : '/' ∉ name) :
      fields (· == '/') (name ++ ending) = [name ++ ending] :=
    fields_of_not_mem (by simp [nameFree, free])
  cases cut : cutLast? '/' front with
  | none =>
    have frontFree := cutLast?_eq_none_iff.mp cut
    exact last [] frontFree (single frontFree)
  | some parts =>
    obtain ⟨left, right⟩ := parts
    obtain ⟨rfl, rightFree⟩ := cutLast?_eq_some_iff.mp cut
    apply last (fields (· == '/') left) rightFree
    rw [List.append_assoc, List.cons_append, fields_append_separator (by rfl), single rightFree]

theorem exists_join_append (directory name ending : Text) :
    ∃ front, Path.join directory (name ++ ending) = front ++ ending := by
  rw [Path.join]
  split
  · exact ⟨name, rfl⟩
  · split
    · exact ⟨directory ++ name, by simp⟩
    · exact ⟨directory ++ "/" ++ name, by simp⟩

/-- The source of an unpacker is no result file. -/
theorem goal_unpackerSource_ne {directory className : Text} (stem : Text) :
    goal (Path.join directory (className ++ ".java")) ≠ resultPlace layout (stem ++ ".txt") := by
  obtain ⟨front, whole⟩ := exists_join_append directory className ".java"
  have free : '/' ∉ (".java" : Text) := by decide
  obtain ⟨names, name, leads⟩ := exists_goal_append free (by decide) front
  rw [whole, leads, resultPlace]
  intro same
  have lastName : name ++ ".java" = stem ++ ".txt" := by
    simpa using congrArg List.getLast? same
  simpa using congrArg List.getLast? lastName

/-! ### A package in a tree that others change -/

/-- What a package may count on: the directories stay, and nobody else touches its result file. -/
structure Undisturbed (layout : Layout) (stem : Text) (before after : Tree) : Prop where
  keeps : before.KeepsDirectories after
  own : after.lookup (resultPlace layout (stem ++ ".txt")) =
    before.lookup (resultPlace layout (stem ++ ".txt"))

/-- What a package keeps to: the directories stay, and the result files of others are left alone. -/
structure KeepsToOwn (layout : Layout) (stem : Text) (before after : Tree) : Prop where
  keeps : before.KeepsDirectories after
  others : ∀ other, other ≠ stem →
    after.lookup (resultPlace layout (other ++ ".txt")) =
      before.lookup (resultPlace layout (other ++ ".txt"))

/-- The directory of the run is there, and the place of the result file holds an entry. -/
structure Holds (layout : Layout) (stem : Text) (entry : Option Entry) (tree : Tree) : Prop where
  stands : layout.Stands tree
  result : tree.lookup (resultPlace layout (stem ++ ".txt")) = entry

theorem Undisturbed.refl (tree : Tree) : Undisturbed layout stem tree tree :=
  ⟨.refl tree, rfl⟩

theorem Undisturbed.trans {first second third : Tree} (left : Undisturbed layout stem first second)
    (right : Undisturbed layout stem second third) : Undisturbed layout stem first third :=
  ⟨left.keeps.trans right.keeps, right.own.trans left.own⟩

theorem KeepsToOwn.refl (tree : Tree) : KeepsToOwn layout stem tree tree :=
  ⟨.refl tree, fun _ _ => rfl⟩

theorem KeepsToOwn.undisturbed {other : Text} (kept : KeepsToOwn layout stem tree changed)
    (different : other ≠ stem) : Undisturbed layout other tree changed :=
  ⟨kept.keeps, kept.others other different⟩

theorem Holds.undisturbed (holds : Holds layout stem entry tree)
    (step : Undisturbed layout stem tree changed) : Holds layout stem entry changed :=
  ⟨holds.stands.keep step.keeps, step.own.trans holds.result⟩

/-- A package at work, up to what holds when it is done. -/
abbrev Ends {α : Type} (layout : Layout) (stem : Text) (after : α → Tree → Prop) :
    Work α → Tree → Prop :=
  Work.Upholds (Undisturbed layout stem) (KeepsToOwn layout stem) after

/-- Nobody else touches the result file of a package that is done. -/
theorem ends_done {α : Type} {value : α} {after : α → Tree → Prop}
    (holds : Holds layout stem entry tree)
    (given : ∀ {tree}, Holds layout stem entry tree → after value tree) :
    Ends layout stem after (.done value) tree :=
  fun _ step => given (holds.undisturbed step)

theorem ends_bind {α β : Type} {after : β → Tree → Prop} {work : Work α} {rest : α → Work β}
    (first : Ends layout stem (fun value => Ends layout stem after (rest value)) work tree) :
    Ends layout stem after (work >>= rest) tree :=
  Work.Upholds.bind .refl first

/-- An entry at another place is not noticed. -/
theorem Holds.put {place : Names} (holds : Holds layout stem entry tree) (written : Entry)
    (free : tree.lookup place ≠ some .directory)
    (apart : ∀ other, place ≠ resultPlace layout (other ++ ".txt")) :
    KeepsToOwn layout stem tree (tree.put place written) ∧
      Holds layout stem entry (tree.put place written) := by
  have keeps := keepsDirectories_put written free
  have same (other : Text) : (tree.put place written).lookup
      (resultPlace layout (other ++ ".txt")) = tree.lookup (resultPlace layout (other ++ ".txt")) :=
    lookup_put_other tree written (apart other).symm
  exact ⟨⟨keeps, fun other _ => same other⟩,
    ⟨holds.stands.keep keeps, (same stem).trans holds.result⟩⟩

/-- A text that is written elsewhere leaves the result file as it is. -/
theorem ends_writeText {path text : Text} {after : Except RunError Unit → Tree → Prop}
    (holds : Holds layout stem entry tree)
    (apart : ∀ other, goal path ≠ resultPlace layout (other ++ ".txt"))
    (onward : ∀ result, (∀ error, result = .error error → error = .cannotWrite path) →
      ∀ {tree}, Holds layout stem entry tree → after result tree) :
    Ends layout stem after (writeText disk path text) tree := by
  intro changed step
  have holds := holds.undisturbed step
  rcases write_cases disk path text changed with failed | ⟨free, opened⟩
  · rw [failed]
    exact ⟨.refl changed, ends_done holds (onward _ (by simp))⟩
  · rw [opened]
    obtain ⟨kept, holdsOn⟩ := holds.put (.file (written disk path text)) free apart
    exact ⟨kept, ends_done holdsOn (onward _ fun _ => answer_eq_error)⟩

/-! ### Directories -/

/-- A step of a path comes to no result file, or to a directory that is there. -/
def IsHarmless (layout : Layout) (place : Names) : Prop :=
  (∀ other, place ≠ resultPlace layout (other ++ ".txt")) ∨
    ∀ tree, layout.Stands tree → tree.lookup place = some .directory

/-- All steps along some parts of a path are harmless. -/
def IsHarmlessAlong (layout : Layout) : Names → List Text → Prop
  | _, [] => True
  | names, part :: rest =>
    IsHarmless layout (next names part) ∧ IsHarmlessAlong layout (next names part) rest

theorem isHarmlessAlong_append {names : Names} {left right : List Text}
    (before : IsHarmlessAlong layout names left)
    (after : IsHarmlessAlong layout (left.foldl next names) right) :
    IsHarmlessAlong layout names (left ++ right) := by
  induction left generalizing names with
  | nil => exact after
  | cons part left inductionHypothesis => exact ⟨before.1, inductionHypothesis before.2 after⟩

/-- A path that the directory of the run lies on is harmless. -/
theorem isHarmlessAlong_of_passes {names : Names} {parts : List Text}
    (leads : parts.foldl next names = layout.base)
    (passes : ∀ tree : Tree, layout.Stands tree → tree.Passes names parts) :
    IsHarmlessAlong layout names parts := by
  induction parts generalizing names with
  | nil => exact trivial
  | cons part rest inductionHypothesis =>
    refine ⟨.inr fun tree stands => ?_, inductionHypothesis leads fun tree stands =>
      (passes tree stands).2⟩
    apply (passes tree stands).2.lookup_head
    rw [← List.foldl_cons, leads]
    exact stands.root

theorem advance_cases (names : Names) (part : Text) (tree : Tree) :
    (∃ seen, advance names part tree = (tree, seen) ∧
        ∀ place, seen = .ok place → place = next names part) ∨
      tree.lookup (next names part) = none ∧
        advance names part tree =
          (tree.put (next names part) .directory, .ok (next names part)) := by
  by_cases stands : tree.lookup names = some .directory
  · rw [advance_eq part stands]
    cases found : tree.lookup (next names part) with
    | none => exact .inr ⟨rfl, rfl⟩
    | some entry => cases entry <;> exact .inl ⟨_, rfl, by simp⟩
  · cases entered : tree.enter names part with
    | ok place => exact absurd (enter_eq_ok_iff.mp entered).1 stands
    | error error =>
      exact .inl ⟨.error error, by simp [advance, enterOrCreate, entered], by simp⟩

theorem ends_makeAlong {names : Names} {parts : List Text}
    {after : Except FileError Unit → Tree → Prop} (holds : Holds layout stem entry tree)
    (harmless : IsHarmlessAlong layout names parts)
    (onward : ∀ result {tree}, Holds layout stem entry tree → after result tree) :
    Ends layout stem after (.makeAlong names parts) tree := by
  induction parts generalizing names tree with
  | nil => exact ends_done holds (onward _)
  | cons part rest inductionHypothesis =>
    intro changed step
    have holds := holds.undisturbed step
    rcases advance_cases names part changed with ⟨seen, same, leads⟩ | ⟨absent, made⟩
    · rw [same]
      refine ⟨.refl changed, ?_⟩
      cases seen with
      | error error => exact ends_done holds (onward _)
      | ok place =>
        obtain rfl := leads place rfl
        exact inductionHypothesis holds harmless.2
    · rw [made]
      rcases harmless.1 with apart | there
      · obtain ⟨kept, holdsOn⟩ := holds.put .directory (by simp [absent]) apart
        exact ⟨kept, inductionHypothesis holdsOn harmless.2⟩
      · rw [there changed holds.stands] at absent
        simp at absent

theorem unpackersPlace_ne (other : Text) :
    layout.unpackersPlace ≠ resultPlace layout (other ++ ".txt") := by
  intro same
  simpa using congrArg List.length (List.append_cancel_left same)

/-- Neither of the two directories for an unpacker is a result file. -/
theorem isHarmlessAlong_unpackers (layout : Layout) (stem : Text) :
    IsHarmlessAlong layout layout.base ["unpackers".toList, stem] := by
  have first : next layout.base "unpackers" = layout.unpackersPlace :=
    next_of_isPlain isPlain_unpackers layout.base
  refine ⟨.inl fun other => ?_, ?_, trivial⟩
  · rw [first]
    exact unpackersPlace_ne other
  · rw [first]
    by_cases current : stem = [] ∨ stem = "."
    · left
      intro other
      rw [next, if_pos (by simpa using current)]
      exact unpackersPlace_ne other
    · by_cases parent : stem = ".."
      · right
        intro tree stands
        have back : next layout.unpackersPlace stem = layout.base := by
          have below : layout.unpackersPlace ≠ [['/']] := by
            intro same
            simpa [unpackersPlace] using congrArg List.getLast? same
          rw [next, if_neg (by simpa using current), if_pos (by simpa using parent), above,
            if_neg (by simp [unpackersPlace]), if_neg (by simpa using below), unpackersPlace,
            List.dropLast_concat]
        rw [back]
        exact stands.root
      · left
        intro other
        rw [next, if_neg (by simpa using current), if_neg (by simpa using parent),
          unpackersPlace, resultPlace, List.append_assoc]
        simp

theorem ends_makeDirectories {after : Except FileError Unit → Tree → Prop}
    (free : '/' ∉ stem) (holds : Holds layout stem entry tree)
    (onward : ∀ result {tree}, Holds layout stem entry tree → after result tree) :
    Ends layout stem after (.makeDirectories (layout.unpackerDirectory stem)) tree := by
  obtain ⟨names, parts, leads, passes, along⟩ := exists_makeAlong layout free
  rw [along]
  apply ends_makeAlong holds _ onward
  apply isHarmlessAlong_append (isHarmlessAlong_of_passes leads passes)
  rw [leads]
  exact isHarmlessAlong_unpackers layout stem

/-! ### Artifacts -/

/-- The result file cannot be opened: the disk refuses it, or a directory stands in its place. -/
def IsBarred (disk : Disk) (layout : Layout) (stem : Text) (before : Option Entry) : Prop :=
  disk (layout.resultPath stem) = some .refused ∨ before = some .directory

/-- The result file is opened, unless that is barred. -/
theorem ends_writeResult {text : Text} {after : Except RunError Unit → Tree → Prop}
    (free : '/' ∉ stem) (holds : Holds layout stem entry tree)
    (failed : IsBarred disk layout stem entry → ∀ {tree}, Holds layout stem entry tree →
      after (.error (.cannotWrite (layout.resultPath stem))) tree)
    (opened : ¬IsBarred disk layout stem entry → ∀ {tree},
      Holds layout stem (some (.file (written disk (layout.resultPath stem) text))) tree →
        after (answer disk (layout.resultPath stem)) tree) :
    Ends layout stem after (writeText disk (layout.resultPath stem) text) tree := by
  intro changed step
  have holds := holds.undisturbed step
  have filled : layout.resultPath stem ≠ [] := join_ne_nil (isPlain_textFile free) _
  have leads : goal (layout.resultPath stem) = resultPlace layout (stem ++ ".txt") :=
    goal_resultPath free
  rw [write_of_isOpen filled (holds.stands.isOpen_resultPath free), leads, holds.result]
  split
  · rename_i barred
    exact ⟨.refl changed, ends_done holds (failed barred)⟩
  · rename_i barred
    have untaken : changed.lookup (resultPlace layout (stem ++ ".txt")) ≠ some .directory := by
      rw [holds.result]
      exact fun taken => barred (.inr taken)
    have keeps := keepsDirectories_put
      (.file (written disk (layout.resultPath stem) text)) untaken
    have proper : resultPlace layout (stem ++ ".txt") ≠ [] := by simp [resultPlace]
    refine ⟨⟨keeps, fun other different => ?_⟩, ends_done
      ⟨holds.stands.keep keeps, lookup_put_same changed _ proper⟩ (opened barred)⟩
    apply lookup_put_other
    simpa [resultPlace] using different

/-- Why the unpacker of a package is not written. -/
def IsUnpackerError (layout : Layout) (stem : Text) (unpacker : Unpacker) (error : RunError) :
    Prop :=
  error = .cannotCreate (layout.unpackerDirectory stem) ∨
    error = .cannotWrite
      (Path.join (layout.unpackerDirectory stem) (unpacker.className ++ ".java"))

theorem ends_writeUnpacker {unpacker : Unpacker} {after : Except RunError Text → Tree → Prop}
    (free : '/' ∉ stem) (holds : Holds layout stem entry tree)
    (onward : ∀ result,
      (∀ error, result = .error error → IsUnpackerError layout stem unpacker error) →
        ∀ {tree}, Holds layout stem entry tree → after result tree) :
    Ends layout stem after (writeUnpacker disk layout stem unpacker) tree := by
  apply ends_bind
  apply ends_makeDirectories free holds
  intro made tree holds
  cases made with
  | error error => exact ends_done holds (onward _ (by simp [IsUnpackerError]))
  | ok _ =>
    apply ends_bind
    apply ends_writeText holds goal_unpackerSource_ne
    intro written cause tree holds
    cases written with
    | error error =>
      refine ends_done holds (onward _ fun other same => ?_)
      obtain rfl := Except.error.inj same
      exact .inr (cause error rfl)
    | ok _ => exact ends_done holds (onward _ (by simp))

theorem ends_writeArtifacts {settings : Settings} {report : Analysis.Report}
    {after : Except RunError (Option Text) → Tree → Prop} (free : '/' ∉ stem)
    (holds : Holds layout stem entry tree)
    (failed : IsBarred disk layout stem entry → ∀ {tree}, Holds layout stem entry tree →
      after (.error (.cannotWrite (layout.resultPath stem))) tree)
    (brokenOff : ∀ {size}, disk (layout.resultPath stem) = some (.brokenOff size) →
      ¬IsBarred disk layout stem entry → ∀ {tree},
        Holds layout stem (some (.file (.beginning report.verdict.resultFile size))) tree →
          after (.error (.cannotWrite (layout.resultPath stem))) tree)
    (written : disk (layout.resultPath stem) = none → ∀ result,
      (∀ error, result = .error error → settings.writeUnpackers = true ∧
        ∃ unpacker, report.unpacker = some unpacker ∧
          IsUnpackerError layout stem unpacker error) →
        ∀ {tree}, Holds layout stem (some (.file (.text report.verdict.resultFile))) tree →
          after result tree) :
    Ends layout stem after (writeArtifacts disk settings layout stem report) tree := by
  apply ends_bind
  apply ends_writeResult free holds
  · intro barred tree holds
    exact ends_done holds (failed barred)
  · intro isOpen tree holds
    rw [Layout.written] at holds
    rw [answer]
    rcases fault : disk (layout.resultPath stem) with - | - | size
    · rw [fault] at holds
      have written := written fault
      simp only [Option.isNone_none, if_true]
      split
      · exact ends_done holds (written _ (by simp))
      · rename_i unpacker isMade
        split
        · rename_i isOn
          apply ends_bind
          apply ends_writeUnpacker free holds
          intro result cause tree holds
          cases result with
          | error error =>
            refine ends_done holds (written _ fun other same => ?_)
            obtain rfl := Except.error.inj same
            exact ⟨isOn, unpacker, isMade, cause error rfl⟩
          | ok path => exact ends_done holds (written _ (by simp))
        · exact ends_done holds (written _ (by simp))
    · exact absurd (.inl fault) isOpen
    · rw [fault] at holds
      exact ends_done holds (brokenOff fault isOpen)

theorem ends_writeLog {log : Log} {record : Record} (free : '/' ∉ record.input.stem)
    (holds : Holds layout stem entry tree) :
    Ends layout stem (fun kept tree => kept = record ∧ Holds layout stem entry tree)
      (writeLog disk layout log record) tree := by
  have apart (other : Text) :
      goal (layout.logPath record.input.stem) ≠ resultPlace layout (other ++ ".txt") := by
    rw [goal_logPath free, resultPlace]
    simp
  apply ends_bind
  apply ends_writeText holds apart
  intro _ _ tree holds
  exact ends_done holds fun holds => ⟨rfl, holds⟩

/-! ### How a package ends -/

/-- How a package ends, with what stands in the place of its result file, when its analysis gave an
outcome and something stood there before. -/
inductive Ending (settings : Settings) (disk : Disk) (layout : Layout) (stem : Text)
    (before : Option Entry) (given : PackageOutcome) : PackageOutcome → Option Entry → Prop
  /-- There is nothing to write. -/
  | unfinished (noReport : given.report? = none) :
    Ending settings disk layout stem before given given before
  /-- The result file cannot be opened. -/
  | unwritten {report : Analysis.Report} (completed : given = .completed report)
      (barred : IsBarred disk layout stem before) :
    Ending settings disk layout stem before given
      (.failed (notWritten stem (.cannotWrite (layout.resultPath stem)))) before
  /-- The result file is opened, and only its beginning is written. -/
  | brokenOff {report : Analysis.Report} {size : Nat} (completed : given = .completed report)
      (fault : disk (layout.resultPath stem) = some (.brokenOff size))
      (isOpen : ¬IsBarred disk layout stem before) :
    Ending settings disk layout stem before given
      (.failed (notWritten stem (.cannotWrite (layout.resultPath stem))))
      (some (.file (.beginning report.verdict.resultFile size)))
  /-- All artifacts are written. -/
  | finished {report : Analysis.Report} (completed : given = .completed report)
      (sound : disk (layout.resultPath stem) = none) :
    Ending settings disk layout stem before given given
      (some (.file (.text report.verdict.resultFile)))
  /-- The result file is written, and the unpacker is not. -/
  | leftBehind {report : Analysis.Report} {unpacker : Unpacker} {error : RunError}
      (completed : given = .completed report)
      (sound : disk (layout.resultPath stem) = none) (isOn : settings.writeUnpackers = true)
      (isMade : report.unpacker = some unpacker)
      (failed : IsUnpackerError layout stem unpacker error) :
    Ending settings disk layout stem before given (.failed (notWritten stem error))
      (some (.file (.text report.verdict.resultFile)))

/-- A record tells how a package ended, and the tree agrees with it. -/
def EndsAs (settings : Settings) (layout : Layout) (job : Job) (before : Option Entry)
    (given : PackageOutcome) (record : Record) (tree : Tree) : Prop :=
  record.input = job.input ∧ ∃ entry,
    Ending settings job.disk layout job.input.stem before given record.outcome entry ∧
      Holds layout job.input.stem entry tree

theorem ends_keep {settings : Settings} {job : Job} {given : PackageOutcome} {log : Log}
    (free : '/' ∉ job.input.stem) (holds : Holds layout job.input.stem entry tree) :
    Ends layout job.input.stem (EndsAs settings layout job entry given)
      (keep settings layout job given log) tree := by
  cases given with
  | failed message =>
    apply (ends_writeLog free holds).imp
    rintro record tree ⟨rfl, holds⟩
    exact ⟨rfl, entry, .unfinished rfl, holds⟩
  | timedOut =>
    apply (ends_writeLog free holds).imp
    rintro record tree ⟨rfl, holds⟩
    exact ⟨rfl, entry, .unfinished rfl, holds⟩
  | completed report =>
    apply ends_bind
    apply ends_writeArtifacts free holds
    · intro barred tree holds
      apply (ends_writeLog free holds).imp
      rintro record tree ⟨rfl, holds⟩
      exact ⟨rfl, entry, .unwritten rfl barred, holds⟩
    · intro size fault isOpen tree holds
      apply (ends_writeLog free holds).imp
      rintro record tree ⟨rfl, holds⟩
      exact ⟨rfl, _, .brokenOff rfl fault isOpen, holds⟩
    · intro sound result cause tree holds
      cases result with
      | ok path =>
        apply (ends_writeLog free holds).imp
        rintro record tree ⟨rfl, holds⟩
        exact ⟨rfl, _, .finished rfl sound, holds⟩
      | error error =>
        obtain ⟨isOn, unpacker, isMade, failed⟩ := cause error rfl
        apply (ends_writeLog free holds).imp
        rintro record tree ⟨rfl, holds⟩
        exact ⟨rfl, _, .leftBehind rfl sound isOn isMade failed, holds⟩

/-- The analysis of a package leaves the result files alone, and no directory goes away. -/
structure Job.LeavesResults (layout : Layout) (job : Job) : Prop where
  keeps : ∀ tree : Tree, tree.KeepsDirectories (job.load tree).1
  results : ∀ (tree : Tree) (name : Text),
    (job.load tree).1.lookup (resultPlace layout name) = tree.lookup (resultPlace layout name)

theorem Job.IsSteady.leavesResults {job : Job} (steady : job.IsSteady layout) :
    job.LeavesResults layout where
  keeps := steady.keeps
  results tree name := steady.artifacts tree ["results".toList, name]
    ⟨"results".toList, by simp, [name], rfl⟩

theorem ends_process {settings : Settings} {job : Job} (free : '/' ∉ job.input.stem)
    (leaves : job.LeavesResults layout) (holds : Holds layout job.input.stem entry tree) :
    Ends layout job.input.stem
      (fun record tree => ∃ loaded, EndsAs settings layout job entry
        (analyse job.toolkit settings job.input.path (job.load loaded).2).1 record tree)
      (process settings layout job) tree := by
  intro changed step
  have holds := holds.undisturbed step
  refine ⟨⟨leaves.keeps changed, fun other _ => leaves.results changed _⟩, ?_⟩
  have loaded : Holds layout job.input.stem entry (job.load changed).1 :=
    ⟨holds.stands.keep (leaves.keeps changed), (leaves.results changed _).trans holds.result⟩
  exact (ends_keep free loaded).imp fun record tree ended => ⟨changed, ended⟩

/-! ### A run in which artifacts cannot be written -/

/-- An application class. -/
def entryClass : ClassFact :=
  { name := "p.A"
    source := "class A extends Application \x7b\x7d"
    superclass := some "android.app.Application" }

theorem exists_completed_entryClass :
    ∃ report unpacker,
      (analyse {} {} "a.apk" (.loaded (.ok (.ofClasses [entryClass] [])))).1 = .completed report ∧
        report.unpacker = some unpacker := by
  have candidates : Dependencies.candidates entryClass (.ofClasses [entryClass] []) = [] := by
    decide +kernel
  have collected : Dependencies.collect entryClass (.ofClasses [entryClass] []) = [entryClass] := by
    rw [Dependencies.collect_eq_cons, candidates, List.filter_nil, Dependencies.collectFrom]
  have counted : Unpacker.hits? {} {} "a.apk" entryClass [entryClass] = some 0 := by decide +kernel
  rw [← collected] at counted
  obtain ⟨report, unpacker, completed, isMade, -⟩ :=
    @exists_completed_of_hits? {} {} _ _ _ _ rfl rfl (by decide +kernel) counted
  exact ⟨report, unpacker, completed, isMade⟩

/-- A file stands in the place of the directory of unpackers. -/
def crowded : Tree :=
  ({} : Tree).put ["out"] .directory
    |>.put ["out", "run"] .directory
    |>.put ["out", "run", "unpackers"] (.file (.text "x"))

/-- The directory of the run in this tree. -/
def crowdedLayout : Layout :=
  { root := "out/run" }

/-- The tree in which that directory was made. -/
def crowdedStart : Tree :=
  crowded.put ["out", "run", "results"] .directory
    |>.put ["out", "run", "logs"] .directory

theorem create_crowded : Layout.create crowded "out" "run" = .ok (crowdedStart, crowdedLayout) := by
  decide +kernel

/-- An app with an application class. -/
def entryJob (disk : Disk) : Job :=
  { input := { path := "a.apk", kind := .app }
    load := fun tree => (tree, .loaded (.ok (.ofClasses [entryClass] [])))
    disk }

/-- The app, and one that is late. -/
def crowdedJobs : List Job :=
  [entryJob fun _ => none,
    { input := { path := "b.apk", kind := .app }, load := fun tree => (tree, .late) }]

/-- Only the beginning of the result file fits on the disk. -/
def fullDisk : Disk := fun path =>
  if path = crowdedLayout.resultPath "a" then some (.brokenOff 3) else none

theorem leavesResults_crowdedJobs : ∀ job ∈ crowdedJobs, job.LeavesResults crowdedLayout := by
  simp only [crowdedJobs, List.forall_mem_cons]
  exact ⟨(isSteady_of_answer rfl).leavesResults, (isSteady_of_answer rfl).leavesResults, by simp⟩

theorem run_process_entryJob (disk : Disk) : ∃ report unpacker log,
    report.unpacker = some unpacker ∧ ∀ tree,
      (process {} crowdedLayout (entryJob disk)).run tree =
        (keep {} crowdedLayout (entryJob disk) (.completed report) log).run tree := by
  obtain ⟨report, unpacker, completed, isMade⟩ := exists_completed_entryClass
  refine ⟨report, unpacker, (analyse {} {} "a.apk" (.loaded (.ok (.ofClasses [entryClass] [])))).2,
    isMade, fun tree => run_process (entryJob disk) rfl (Prod.ext completed rfl)⟩

/-- The app fails, and its result file is there. -/
theorem exists_run_crowded :
    ∃ last first second message,
      (workers {} crowdedLayout crowdedStart crowdedJobs).Reaches
        (.finished last [first, second]) ∧
      first.input.stem = "a" ∧ first.outcome = .failed message ∧ second.outcome = .timedOut ∧
      last.isFile (crowdedLayout.resultPath "a") = true := by
  obtain ⟨⟨verdict, missing, made, error⟩, unpacker, log, isMade, ran⟩ :=
    run_process_entryJob fun _ => none
  obtain rfl : made = some unpacker := isMade
  have reached := Pool.reaches_runAll (crowdedJobs.map (process {} crowdedLayout)) crowdedStart
  simp only [crowdedJobs, List.map_cons, List.map_nil, Work.runAll, ran] at reached
  exact ⟨_, _, _, _, reached, rfl, rfl, rfl, rfl⟩

/-- The app fails, and the beginning of its result file is there. -/
theorem exists_run_fullDisk :
    ∃ last record, (workers {} crowdedLayout crowdedStart [entryJob fullDisk]).Reaches
        (.finished last [record]) ∧
      last.isFile (crowdedLayout.resultPath "a") = true := by
  obtain ⟨⟨verdict, missing, made, error⟩, unpacker, log, isMade, ran⟩ :=
    run_process_entryJob fullDisk
  obtain rfl : made = some unpacker := isMade
  have reached := Pool.reaches_runAll [process {} crowdedLayout (entryJob fullDisk)] crowdedStart
  simp only [Work.runAll, ran] at reached
  exact ⟨_, _, reached, rfl⟩

/-! ### Result files of a run -/

theorem Holds.resolve_eq (holds : Holds layout stem entry tree) (free : '/' ∉ stem) :
    tree.resolve (layout.resultPath stem) = .ok (resultPlace layout (stem ++ ".txt")) :=
  resolve_eq_ok_iff.mpr ⟨join_ne_nil (isPlain_textFile free) _,
    holds.stands.isOpen_resultPath free, goal_resultPath free⟩

theorem Holds.at?_eq (holds : Holds layout stem entry tree) (free : '/' ∉ stem) :
    tree.at? (layout.resultPath stem) = entry := by
  rw [at?, holds.resolve_eq free]
  exact holds.result

/-- What stands in its place decides whether there is a result file. -/
theorem Holds.isFile_eq {start : Tree} (begun : Holds layout stem entry start)
    (holds : Holds layout stem entry tree) (free : '/' ∉ stem) :
    tree.isFile (layout.resultPath stem) = start.isFile (layout.resultPath stem) := by
  rw [isFile, isFile, holds.at?_eq free, begun.at?_eq free]

theorem Holds.isDirectory_iff (holds : Holds layout stem entry tree) (free : '/' ∉ stem) :
    tree.isDirectory (layout.resultPath stem) = true ↔ entry = some .directory := by
  rw [isDirectory, holds.at?_eq free]
  split <;> simp_all

theorem Holds.readText_eq {text : Text} (holds : Holds layout stem (some (.file (.text text))) tree)
    (free : '/' ∉ stem) : tree.readText (layout.resultPath stem) = .ok text := by
  rw [readText, holds.resolve_eq free]
  simp only [textAt, holds.result]

/-- The analysis of a package was completed, and only its unpacker could not be written. -/
def IsLeftBehind (settings : Settings) (layout : Layout) (stem : Text)
    (given outcome : PackageOutcome) : Prop :=
  settings.writeUnpackers = true ∧ ∃ report unpacker error, given = .completed report ∧
    report.unpacker = some unpacker ∧ IsUnpackerError layout stem unpacker error ∧
    outcome = .failed (notWritten stem error)

/-- The analysis of a package was completed, and the writing of its result file broke off. -/
def IsBrokenOff (disk : Disk) (layout : Layout) (stem : Text) (start : Tree)
    (given outcome : PackageOutcome) : Prop :=
  start.isDirectory (layout.resultPath stem) = false ∧ ∃ report size, given = .completed report ∧
    disk (layout.resultPath stem) = some (.brokenOff size) ∧
    outcome = .failed (notWritten stem (.cannotWrite (layout.resultPath stem)))

/-- The message about a result file is not that about an unpacker. -/
theorem notWritten_ne {unpacker : Unpacker} {error : RunError} (free : '/' ∉ stem)
    (failed : IsUnpackerError layout stem unpacker error) :
    notWritten stem (.cannotWrite (layout.resultPath stem)) ≠ notWritten stem error := by
  intro same
  have messages : RunError.message (.cannotWrite (layout.resultPath stem)) = error.message :=
    List.append_cancel_left same
  rcases failed with rfl | rfl
  · have tenth : some 'w' = some 'c' := congrArg (fun text : Text => text[10]?) messages
    exact absurd tenth (by decide)
  · have paths : layout.resultPath stem =
        Path.join (layout.unpackerDirectory stem) (unpacker.className ++ ".java") :=
      List.append_cancel_left messages
    have places := congrArg goal paths
    rw [goal_resultPath free] at places
    exact goal_unpackerSource_ne stem places.symm

section Ending

variable {settings : Settings} {start : Tree} {before : Option Entry}
  {given outcome : PackageOutcome}
  (ending : Ending settings disk layout stem before given outcome entry) (free : '/' ∉ stem)
  (begun : Holds layout stem before start)
  (absent : start.isFile (layout.resultPath stem) = false)
  (holds : Holds layout stem entry tree)

include ending free begun absent holds

theorem Ending.isFile_iff :
    tree.isFile (layout.resultPath stem) = true ↔
      (∃ report, outcome = .completed report) ∨
        IsLeftBehind settings layout stem given outcome ∨
        IsBrokenOff disk layout stem start given outcome := by
  have isThere {content : FileContent} (holds : Holds layout stem (some (.file content)) tree) :
      tree.isFile (layout.resultPath stem) = true := by
    rw [isFile, holds.at?_eq free]
  cases ending with
  | unfinished noReport =>
    have notCompleted (report : Analysis.Report) : given ≠ .completed report := by
      rintro rfl
      simp [PackageOutcome.report?] at noReport
    rw [begun.isFile_eq holds free, absent]
    simp [notCompleted, IsLeftBehind, IsBrokenOff]
  | unwritten completed barred =>
    rw [begun.isFile_eq holds free, absent]
    simp only [Bool.false_eq_true, reduceCtorEq, exists_false, false_or, false_iff, not_or]
    constructor
    · rintro ⟨-, report, unpacker, error, -, -, failed, same⟩
      exact notWritten_ne free failed (PackageOutcome.failed.inj same)
    · rintro ⟨untaken, report, size, -, fault, -⟩
      rcases barred with refused | taken
      · simp [refused] at fault
      · rw [(begun.isDirectory_iff free).mpr taken] at untaken
        exact absurd untaken (by decide)
  | brokenOff completed fault isOpen =>
    refine ⟨fun _ => .inr (.inr ⟨?_, _, _, completed, fault, rfl⟩), fun _ => isThere holds⟩
    exact Bool.eq_false_iff.mpr fun taken =>
      isOpen (.inr ((begun.isDirectory_iff free).mp taken))
  | finished completed sound => exact ⟨fun _ => .inl ⟨_, completed⟩, fun _ => isThere holds⟩
  | leftBehind completed sound isOn isMade failed =>
    exact ⟨fun _ => .inr (.inl ⟨isOn, _, _, _, completed, isMade, failed, rfl⟩),
      fun _ => isThere holds⟩

/-- A result file holds the result of the analysis, or the beginning of it. -/
theorem Ending.exists_report (there : tree.isFile (layout.resultPath stem) = true) :
    ∃ report, given = .completed report ∧
      tree.at? (layout.resultPath stem) =
        some (.file (written disk (layout.resultPath stem) report.verdict.resultFile)) ∧
      (¬IsBrokenOff disk layout stem start given outcome →
        tree.readText (layout.resultPath stem) = .ok report.verdict.resultFile) := by
  have broken := (ending.isFile_iff free begun absent holds).mp there
  simp only [holds.at?_eq free, Layout.written]
  cases ending with
  | unfinished noReport => simp [begun.isFile_eq holds free, absent] at there
  | unwritten completed barred => simp [begun.isFile_eq holds free, absent] at there
  | brokenOff completed fault isOpen =>
    refine ⟨_, completed, by rw [fault], fun sound => ?_⟩
    rcases broken with ⟨_, other⟩ | ⟨-, _, _, _, -, -, failed, same⟩ | broken
    · simp at other
    · exact absurd (PackageOutcome.failed.inj same) (notWritten_ne free failed)
    · exact absurd broken sound
  | finished completed sound => exact ⟨_, completed, by rw [sound], fun _ => holds.readText_eq free⟩
  | leftBehind completed sound isOn isMade failed =>
    exact ⟨_, completed, by rw [sound], fun _ => holds.readText_eq free⟩

end Ending

/-- In every order of the accesses each package that is done has ended in one of the ways. -/
theorem exists_endsAs {settings : Settings} {jobs : List Job} {pool : Pool Record}
    (stands : layout.Stands tree)
    (distinct : ((jobs.map Job.input).map PackageInput.stem).Nodup)
    (free : ∀ job ∈ jobs, '/' ∉ job.input.stem) (leaves : ∀ job ∈ jobs, job.LeavesResults layout)
    (reached : (workers settings layout tree jobs).Reaches pool) {index : Nat} {job : Job}
    {record : Record} (isJob : jobs[index]? = some job)
    (isDone : pool.works[index]? = some (.done record)) :
    ∃ loaded, EndsAs settings layout job
      (tree.lookup (resultPlace layout (job.input.stem ++ ".txt")))
      (analyse job.toolkit settings job.input.path (job.load loaded).2).1 record pool.tree := by
  have upholds := Pool.upholds_of_reaches
    (fun index => Undisturbed layout (stemAt (jobs.map Job.input) index))
    (fun index => KeepsToOwn layout (stemAt (jobs.map Job.input) index))
    (fun index record last => ∀ job, jobs[index]? = some job →
      ∃ loaded, EndsAs settings layout job
        (tree.lookup (resultPlace layout (job.input.stem ++ ".txt")))
        (analyse job.toolkit settings job.input.path (job.load loaded).2).1 record last)
    (fun _ => .refl) .trans ?_ ?_ reached
  · exact upholds.2 index _ isDone pool.tree (.refl _) job isJob
  · intro index other before after inRange otherInRange different kept
    apply kept.undisturbed
    apply stemAt_ne distinct
    · simpa using otherInRange
    · simpa using inRange
    · exact Ne.symm different
  · intro index work isWork
    obtain ⟨job, isJob, rfl⟩ : ∃ job, jobs[index]? = some job ∧
        process settings layout job = work := by simpa using isWork
    have member := List.mem_of_getElem? isJob
    have begun : Holds layout job.input.stem
        (tree.lookup (resultPlace layout (job.input.stem ++ ".txt"))) tree := ⟨stands, rfl⟩
    rw [stemAt_eq (by simpa using ⟨job, isJob, rfl⟩)]
    apply (ends_process (free job member) (leaves job member) begun).imp
    intro record last ended other isOther
    obtain rfl := Option.some.inj (isJob.symm.trans isOther)
    exact ended

/-- A package that is done has a result file exactly when its analysis was completed and all
artifacts were written, when its unpacker is all that could not be written, or when the writing of
the result file itself broke off. In the last two cases the package has failed, and the result file
of its analysis, or the beginning of it, is left behind. -/
theorem isFile_resultPath_iff {settings : Settings} {jobs : List Job} {pool : Pool Record}
    (stands : layout.Stands tree)
    (distinct : ((jobs.map Job.input).map PackageInput.stem).Nodup)
    (free : ∀ job ∈ jobs, '/' ∉ job.input.stem) (leaves : ∀ job ∈ jobs, job.LeavesResults layout)
    (absent : ∀ job ∈ jobs, tree.isFile (layout.resultPath job.input.stem) = false)
    (reached : (workers settings layout tree jobs).Reaches pool) {index : Nat} {job : Job}
    {record : Record} (isJob : jobs[index]? = some job)
    (isDone : pool.works[index]? = some (.done record)) :
    let path := layout.resultPath job.input.stem
    ∃ loaded given, given = (analyse job.toolkit settings job.input.path (job.load loaded).2).1 ∧
      record.input = job.input ∧
      (pool.tree.isFile path = true ↔
        (∃ report, record.outcome = .completed report) ∨
          IsLeftBehind settings layout job.input.stem given record.outcome ∨
          IsBrokenOff job.disk layout job.input.stem tree given record.outcome) ∧
      (pool.tree.isFile path = true → ∃ report, given = .completed report ∧
        pool.tree.at? path = some (.file (written job.disk path report.verdict.resultFile)) ∧
        (¬IsBrokenOff job.disk layout job.input.stem tree given record.outcome →
          pool.tree.readText path = .ok report.verdict.resultFile)) := by
  have member := List.mem_of_getElem? isJob
  obtain ⟨loaded, sameInput, entry, ending, holds⟩ :=
    exists_endsAs stands distinct free leaves reached isJob isDone
  have begun : Holds layout job.input.stem
      (tree.lookup (resultPlace layout (job.input.stem ++ ".txt"))) tree := ⟨stands, rfl⟩
  exact ⟨loaded, _, rfl, sameInput,
    ending.isFile_iff (free job member) begun (absent job member) holds,
    ending.exists_report (free job member) begun (absent job member) holds⟩

/-- A file in the place of the directory of unpackers, and a disk that is full. -/
theorem isFile_resultPath_iff_crowded :
    (∃ last first second,
      (workers {} crowdedLayout crowdedStart crowdedJobs).Reaches
        (.finished last [first, second]) ∧
      last.isFile (crowdedLayout.resultPath "a") = true ∧
      (∃ given, IsLeftBehind {} crowdedLayout "a" given first.outcome) ∧
      last.isFile (crowdedLayout.resultPath "b") = false) ∧
    ∃ last record report, (workers {} crowdedLayout crowdedStart [entryJob fullDisk]).Reaches
        (.finished last [record]) ∧
      last.at? (crowdedLayout.resultPath "a") =
        some (.file (.beginning (Analysis.Report.verdict report).resultFile 3)) := by
  have stands := stands_of_create create_crowded
  constructor
  · obtain ⟨last, first, second, message, reached, -, isFailed, isLate, there⟩ := exists_run_crowded
    have absent : ∀ job ∈ crowdedJobs,
        crowdedStart.isFile (crowdedLayout.resultPath job.input.stem) = false := by decide +kernel
    obtain ⟨-, given, -, -, ofFirst, -⟩ := isFile_resultPath_iff stands (by decide) (by decide)
      leavesResults_crowdedJobs absent reached (show crowdedJobs[0]? = some _ from rfl) rfl
    obtain ⟨-, other, -, -, ofSecond, -⟩ := isFile_resultPath_iff stands (by decide) (by decide)
      leavesResults_crowdedJobs absent reached (show crowdedJobs[1]? = some _ from rfl) rfl
    refine ⟨last, first, second, reached, there, ⟨given, ?_⟩, ?_⟩
    · rcases ofFirst.mp there with ⟨report, completed⟩ | left | ⟨-, -, size, -, fault, -⟩
      · simp [isFailed] at completed
      · exact left
      · cases fault
    · apply Bool.eq_false_iff.mpr
      intro otherThere
      have ended := ofSecond.mp otherThere
      simp [isLate, IsLeftBehind, IsBrokenOff] at ended
  · obtain ⟨last, record, reached, there⟩ := exists_run_fullDisk
    have leaves : ∀ job ∈ [entryJob fullDisk], job.LeavesResults crowdedLayout :=
      List.forall_mem_singleton.mpr (isSteady_of_answer rfl).leavesResults
    obtain ⟨-, given, -, -, -, held⟩ := isFile_resultPath_iff stands (by decide) (by decide) leaves
      (by decide +kernel) reached (show [entryJob fullDisk][0]? = some _ from rfl) rfl
    obtain ⟨report, -, same, -⟩ := held there
    exact ⟨last, record, report, reached, same⟩

/-- A package that has failed can have a result file in a directory that had none. -/
theorem isFile_of_isFailed :
    Layout.create crowded "out" "run" = .ok (crowdedStart, crowdedLayout) ∧
    ((crowdedJobs.map Job.input).map PackageInput.stem).Nodup ∧
    (∀ job ∈ crowdedJobs,
      crowdedStart.isFile (crowdedLayout.resultPath job.input.stem) = false) ∧
    ∃ last first second message,
      (workers {} crowdedLayout crowdedStart crowdedJobs).Reaches
        (.finished last [first, second]) ∧
      first.outcome = .failed message ∧
      last.isFile (crowdedLayout.resultPath first.input.stem) = true := by
  refine ⟨create_crowded, by decide, by decide +kernel, ?_⟩
  obtain ⟨last, first, second, message, reached, named, isFailed, -, there⟩ := exists_run_crowded
  exact ⟨last, first, second, message, reached, isFailed, named ▸ there⟩

end Unpacking.Batch
