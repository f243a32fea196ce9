import Unpacking.Batch.Run
import Unpacking.Proofs.Analysis.Consistency
import Unpacking.Proofs.File.Tree

/-!
Where the artifacts of a run stand. Every place is seen from the directory of the run. Main
statements: the directories of a run that was made are there (`stands_of_create`), the places of
different packages are apart (`eq_of_owns`), and the unpacker of a package has a plain name
(`isPlain_className`).
-/

namespace Unpacking

open Text Unpacking.Tree

namespace Path

variable {base name other : Text}

/-- A path that ends in a plain name is continued part by part. -/
theorem start_join_join (plain : isPlain name = true) (otherFree : '/' ∉ other) (base : Text) :
    start (join (join base name) other) =
      ((start (join base name)).1, (start (join base name)).2 ++ [other]) := by
  have filled := join_ne_nil plain base
  have last : (join base name).getLast? ≠ some '/' := by
    obtain ⟨nameFilled, -, -, free⟩ := isPlain_iff.mp plain
    rw [join_of_free free, List.getLast?_append_of_ne_nil _ nameFilled]
    exact fun closed => free (List.mem_of_getLast? closed)
  have notClosed : ends ['/'] (join base name) = false := by
    rw [ends_singleton]
    exact beq_false_of_ne last
  have leadEq : lead (join base name) = join base name ++ ['/'] := by
    rw [lead, if_neg (by simp [filled, notClosed])]
    rfl
  rw [join_of_free otherFree, leadEq, List.append_assoc]
  refine Prod.ext (fst_start_append filled _) ?_
  rw [snd_start, snd_start, List.singleton_append, fields_append_separator (by rfl),
    fields_of_not_mem otherFree]

end Path

namespace Layout

variable {layout : Layout} {tree changed : Tree} {stem other : Text} {place : Names}

/-- The place of the directory of a run. -/
def base (layout : Layout) : Names :=
  goal layout.root

/-- The place of the directory of unpackers, which is made when it is needed. -/
def unpackersPlace (layout : Layout) : Names :=
  layout.base ++ ["unpackers".toList]

/-- The directory of a run is there, with those that are made at the start. -/
structure Stands (layout : Layout) (tree : Tree) : Prop where
  isOpen : tree.IsOpen layout.root
  root : tree.lookup layout.base = some .directory
  results : tree.lookup (layout.base ++ ["results".toList]) = some .directory
  logs : tree.lookup (layout.base ++ ["logs".toList]) = some .directory

theorem Stands.keep (stands : layout.Stands tree) (keeps : tree.KeepsDirectories changed) :
    layout.Stands changed :=
  ⟨stands.isOpen.keep keeps, keeps _ stands.root, keeps _ stands.results, keeps _ stands.logs⟩

theorem makeDirectory_eq_ok {path : Text} (made : makeDirectory tree path = .ok changed) :
    tree.createDirectories path = .ok changed := by
  rw [makeDirectory] at made
  split at made
  · rename_i created
    rw [created, Except.ok.inj made]
  · simp at made

theorem isPlain_results : Path.isPlain "results" = true := by decide

theorem isPlain_logs : Path.isPlain "logs" = true := by decide

theorem isPlain_unpackers : Path.isPlain "unpackers" = true := by decide

theorem isPlain_table : Path.isPlain "combined_table.tsv" = true := by decide

/-- A directory of a run that was just made is there. -/
theorem stands_of_create {output name : Text}
    (created : create tree output name = .ok (changed, layout)) : layout.Stands changed := by
  cases madeResults : makeDirectory tree (mk (Path.join output name)).resultsDirectory with
  | error error => simp [create, madeResults, bind, Except.bind] at created
  | ok between =>
    cases madeLogs : makeDirectory between (mk (Path.join output name)).logsDirectory with
    | error error => simp [create, madeResults, madeLogs, bind, Except.bind] at created
    | ok last =>
      simp only [create, madeResults, madeLogs, bind, Except.bind, pure, Except.pure,
        Except.ok.injEq, Prod.mk.injEq] at created
      obtain ⟨rfl, rfl⟩ := created
      obtain ⟨-, isOpen, results⟩ := createDirectories_eq_ok (makeDirectory_eq_ok madeResults)
      obtain ⟨keeps, -, logs⟩ := createDirectories_eq_ok (makeDirectory_eq_ok madeLogs)
      rw [resultsDirectory, goal_join isPlain_results] at results
      rw [logsDirectory, goal_join isPlain_logs] at logs
      rw [resultsDirectory, isOpen_join_iff isPlain_results] at isOpen
      exact ⟨isOpen.1.keep keeps, keeps _ isOpen.2, keeps _ results, logs⟩

/-- What a disk keeps of a text that is written to a path. -/
def written (disk : Disk) (path text : Text) : FileContent :=
  match disk path with
  | some (.brokenOff size) => .beginning text size
  | _ => .text text

/-- What is said about a file that was opened. -/
def answer (disk : Disk) (path : Text) : Except RunError Unit :=
  if (disk path).isNone then .ok () else .error (.cannotWrite path)

/-- A file is opened, or nothing changes. -/
theorem write_eq (disk : Disk) (path text : Text) (tree : Tree) :
    write disk path text tree =
      if disk path = some .refused then (tree, .error (.cannotWrite path))
      else
        match tree.writeFile path (written disk path text) with
        | .error _ => (tree, .error (.cannotWrite path))
        | .ok changed => (changed, answer disk path) := by
  rw [write, written, answer]
  cases disk path with
  | none => rfl
  | some fault => cases fault <;> rfl

theorem write_of_isOpen {path : Text} (filled : path ≠ []) (isOpen : tree.IsOpen path)
    (disk : Disk) (text : Text) :
    write disk path text tree =
      if disk path = some .refused ∨ tree.lookup (goal path) = some .directory then
        (tree, .error (.cannotWrite path))
      else (tree.put (goal path) (.file (written disk path text)), answer disk path) := by
  rw [write_eq, writeFile_of_isOpen filled isOpen]
  by_cases refused : disk path = some .refused
  · simp [refused]
  · by_cases taken : tree.lookup (goal path) = some .directory
    · simp [refused, taken]
    · simp [refused, taken]

/-- A file is written, and what stands there is no directory, or nothing changes. -/
theorem write_cases (disk : Disk) (path text : Text) (tree : Tree) :
    write disk path text tree = (tree, .error (.cannotWrite path)) ∨
      tree.lookup (goal path) ≠ some .directory ∧
        write disk path text tree =
          (tree.put (goal path) (.file (written disk path text)), answer disk path) := by
  rw [write_eq]
  split
  · exact .inl rfl
  · split
    · exact .inl rfl
    · rename_i changed opened
      obtain ⟨-, -, free, rfl⟩ := writeFile_eq_ok opened
      exact .inr ⟨free, rfl⟩

theorem answer_eq_error {disk : Disk} {path : Text} {error : RunError}
    (failed : answer disk path = .error error) : error = .cannotWrite path := by
  rw [answer] at failed
  split at failed
  · simp at failed
  · exact (Except.error.inj failed).symm

/-- A file that was written can be read. -/
theorem readText_of_write {disk : Disk} {path text : Text} {changed : Tree}
    (ran : write disk path text tree = (changed, .ok ())) : changed.readText path = .ok text := by
  cases fault : disk path with
  | some fault =>
    rw [write_eq, answer, fault] at ran
    split at ran
    · simp at ran
    · split at ran <;> simp at ran
  | none =>
    cases opened : tree.writeFile path (.text text) with
    | error error => simp [write_eq, written, fault, opened] at ran
    | ok after =>
      simp only [write_eq, written, fault, opened, reduceCtorEq, if_false] at ran
      obtain ⟨rfl, -⟩ := Prod.mk.inj ran
      exact readText_of_writeFile opened

/-! ### Places -/

/-- A place belongs to the package with a stem: its result file, its log file, or the directory of
its unpacker with all that is in it. -/
def Owns (stem : Text) (place : Names) : Prop :=
  place = ["results".toList, stem ++ ".txt"] ∨ place = ["logs".toList, stem ++ ".txt"] ∨
    ["unpackers".toList, stem] <+: place

/-- A place among the artifacts of all packages, or that of the table. -/
def IsArtifact (place : Names) : Prop :=
  ∃ first ∈ ["results".toList, "logs".toList, "unpackers".toList, "combined_table.tsv".toList],
    [first] <+: place

theorem IsArtifact.append (isArtifact : IsArtifact place) {rest : Names} :
    IsArtifact (place ++ rest) := by
  obtain ⟨first, member, begins⟩ := isArtifact
  exact ⟨first, member, begins.trans (List.prefix_append place rest)⟩

theorem Owns.isArtifact (owns : Owns stem place) : IsArtifact place := by
  rcases owns with rfl | rfl | ⟨rest, rfl⟩
  · exact ⟨"results".toList, by simp, _, rfl⟩
  · exact ⟨"logs".toList, by simp, _, rfl⟩
  · exact ⟨"unpackers".toList, by simp, _, rfl⟩

/-- No place belongs to two packages. -/
theorem eq_of_owns (owns : Owns stem place) (otherOwns : Owns other place) : stem = other := by
  rcases owns with rfl | rfl | ⟨rest, rfl⟩
  · simpa [Owns, List.cons_prefix_cons] using otherOwns
  · simpa [Owns, List.cons_prefix_cons] using otherOwns
  · have same : other = stem := by simpa [Owns, List.cons_prefix_cons] using otherOwns
    exact same.symm

theorem not_owns_unpackers : ¬ Owns stem ["unpackers".toList] := by
  simp [Owns, List.cons_prefix_cons]

/-! ### Paths of artifacts -/

theorem isPlain_append {name ending : Text} (free : '/' ∉ name) (endingFree : '/' ∉ ending)
    (long : 2 < ending.length) : Path.isPlain (name ++ ending) = true := by
  have longer : 2 < (name ++ ending).length := by
    rw [List.length_append]
    omega
  rw [Path.isPlain_iff]
  refine ⟨?_, ?_, ?_, by simp [free, endingFree]⟩
  all_goals
    intro same
    rw [same] at longer
    simp at longer

theorem isPlain_textFile (free : '/' ∉ stem) : Path.isPlain (stem ++ ".txt") = true :=
  isPlain_append free (by decide) (by decide)

theorem goal_resultPath (free : '/' ∉ stem) :
    goal (layout.resultPath stem) = layout.base ++ ["results".toList, stem ++ ".txt"] := by
  rw [resultPath, goal_join (isPlain_textFile free), resultsDirectory, goal_join isPlain_results,
    List.append_assoc]
  rfl

theorem goal_logPath (free : '/' ∉ stem) :
    goal (layout.logPath stem) = layout.base ++ ["logs".toList, stem ++ ".txt"] := by
  rw [logPath, goal_join (isPlain_textFile free), logsDirectory, goal_join isPlain_logs,
    List.append_assoc]
  rfl

theorem goal_unpackersDirectory : goal layout.unpackersDirectory = layout.unpackersPlace := by
  rw [unpackersDirectory, goal_join isPlain_unpackers]
  rfl

theorem goal_unpackerDirectory (plain : Path.isPlain stem = true) :
    goal (layout.unpackerDirectory stem) = layout.base ++ ["unpackers".toList, stem] := by
  rw [unpackerDirectory, goal_join plain, goal_unpackersDirectory, unpackersPlace,
    List.append_assoc]
  rfl

theorem goal_tablePath : goal layout.tablePath = layout.base ++ ["combined_table.tsv".toList] := by
  rw [tablePath, goal_join isPlain_table, base]

theorem Stands.isOpen_resultPath (stands : layout.Stands tree) (free : '/' ∉ stem) :
    tree.IsOpen (layout.resultPath stem) := by
  rw [resultPath, isOpen_join_iff (isPlain_textFile free), resultsDirectory,
    isOpen_join_iff isPlain_results, goal_join isPlain_results]
  exact ⟨⟨stands.isOpen, stands.root⟩, stands.results⟩

theorem Stands.isOpen_logPath (stands : layout.Stands tree) (free : '/' ∉ stem) :
    tree.IsOpen (layout.logPath stem) := by
  rw [logPath, isOpen_join_iff (isPlain_textFile free), logsDirectory,
    isOpen_join_iff isPlain_logs, goal_join isPlain_logs]
  exact ⟨⟨stands.isOpen, stands.root⟩, stands.logs⟩

theorem goal_unpackerPath (plain : Path.isPlain stem = true) {name : Text}
    (namePlain : Path.isPlain name = true) :
    goal (Path.join (layout.unpackerDirectory stem) name) =
      layout.base ++ ["unpackers".toList, stem, name] := by
  rw [goal_join namePlain, goal_unpackerDirectory plain, List.append_assoc]
  rfl

theorem Stands.isOpen_unpackerPath (stands : layout.Stands tree) (plain : Path.isPlain stem = true)
    {name : Text} (namePlain : Path.isPlain name = true)
    (unpackers : tree.lookup layout.unpackersPlace = some .directory)
    (own : tree.lookup (layout.base ++ ["unpackers".toList, stem]) = some .directory) :
    tree.IsOpen (Path.join (layout.unpackerDirectory stem) name) := by
  rw [isOpen_join_iff namePlain, goal_unpackerDirectory plain, unpackerDirectory,
    isOpen_join_iff plain, goal_unpackersDirectory, unpackersDirectory,
    isOpen_join_iff isPlain_unpackers]
  exact ⟨⟨⟨stands.isOpen, stands.root⟩, unpackers⟩, own⟩

theorem Stands.isOpen_tablePath (stands : layout.Stands tree) : tree.IsOpen layout.tablePath := by
  rw [tablePath, isOpen_join_iff isPlain_table]
  exact ⟨stands.isOpen, stands.root⟩

end Layout

/-! ### Names of unpackers -/

namespace Unpacker

theorem slash_not_mem_classNameFor {settings : SynthesisSettings}
    (free : '/' ∉ settings.classPrefix) (path : Text) : '/' ∉ classNameFor settings path := by
  rw [classNameFor, List.mem_append, not_or]
  refine ⟨free, fun member => ?_⟩
  obtain ⟨c, -, same⟩ := List.mem_map.mp member
  rw [nameCharacter] at same
  split at same
  · rename_i isAlphanum
    rw [same] at isAlphanum
    exact absurd isAlphanum (by decide)
  · exact absurd same (by decide)

theorem className_of_synthesize {toolkit : Toolkit} {settings : SynthesisSettings} {path : Text}
    {facts : Facts} {entry : Option ClassFact} {unpacker : Unpacker} {log : Log}
    (made : synthesize toolkit settings path facts entry = .ok (unpacker, log)) :
    unpacker.className = classNameFor settings path := by
  cases entry with
  | none => simp [synthesize] at made
  | some entry =>
    rw [synthesize, synthesizeFrom] at made
    split at made
    · simp at made
    · simp only at made
      split at made
      · simp at made
      · simp at made
      · rw [← (Prod.mk.inj (Except.ok.inj made)).1]

end Unpacker

namespace Analysis

variable {toolkit : Toolkit} {settings : Settings} {cancelled : Bool} {path : Text}
  {loaded : Except LoadError Facts} {report : Report}

/-- A report comes from the analysis of some facts. -/
theorem exists_runOn_of_run
    (analysed : (run toolkit settings cancelled path loaded).result = .ok report) :
    ∃ facts, (runOn toolkit settings (.of path facts)).result = .ok report := by
  cases loaded with
  | error error => simp [run] at analysed
  | ok facts =>
    cases cancelled with
    | true => simp [run] at analysed
    | false => exact ⟨facts, analysed⟩

/-- An unpacker is named for the path of its package. -/
theorem className_of_run {unpacker : Unpacker}
    (analysed : (run toolkit settings cancelled path loaded).result = .ok report)
    (isMade : report.unpacker = some unpacker) :
    unpacker.className = Unpacker.classNameFor settings.synthesis path := by
  obtain ⟨facts, analysedFacts⟩ := exists_runOn_of_run analysed
  rcases runOn_cases analysedFacts with ⟨-, rfl⟩ | ⟨-, made, synthesized, rfl⟩
  · simp at isMade
  · rw [synthesis] at synthesized
    split at synthesized
    · rw [← Except.ok.inj synthesized] at isMade
      simp at isMade
    · split at synthesized
      · rename_i fromFacts
        rw [← Except.ok.inj synthesized] at isMade
        rw [← Option.some.inj isMade]
        exact Unpacker.className_of_synthesize fromFacts
      · rw [← Except.ok.inj synthesized] at isMade
        simp at isMade
      · rw [← Except.ok.inj synthesized] at isMade
        simp at isMade
      · simp at synthesized

end Analysis

end Unpacking
