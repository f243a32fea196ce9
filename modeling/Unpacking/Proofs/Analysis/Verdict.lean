import Unpacking.Analysis.Verdict
import Unpacking.Proofs.File.Path
import Unpacking.Proofs.Text.NameSet

/-!
Verdicts that are read back from their written forms. A result file is read by its keys, a row of
the combined table by its cells. Main statement: `eq_of_written_eq` says that neither form loses
what it holds.
-/

namespace Unpacking

open Text

/-! ### Values under keys -/

/-- A key ends before the equals sign, so no key is taken for a longer one. -/
theorem Text.after?_key {key other : Text} (free : '=' ∉ key) (otherFree : '=' ∉ other)
    (value : Text) :
    after? (key ++ "=") (other ++ "=" ++ value) = if key = other then some value else none := by
  induction key generalizing other with
  | nil =>
    cases other with
    | nil => rfl
    | cons c other =>
      have different : '=' ≠ c := fun same => otherFree (same ▸ List.mem_cons_self)
      simp [after?, different]
  | cons k key inductionHypothesis =>
    cases other with
    | nil =>
      have different : k ≠ '=' := fun same => free (same ▸ List.mem_cons_self)
      simp [after?, different]
    | cons c other =>
      have tails := inductionHypothesis (fun inside => free (List.mem_cons_of_mem k inside))
        (fun inside => otherFree (List.mem_cons_of_mem c inside))
      by_cases same : k = c
      · subst same
        simpa [after?] using tails
      · simp [after?, same]

namespace Verdict

/-- The values under a key of a result file, in their order. -/
def valuesOf (key text : Text) : List Text :=
  (fields (· == '\n') text).filterMap (after? (key ++ "="))

/-- The key of the packages that use reflection. -/
def reflectiveKey : Text :=
  "reflective_package_name"

/-- The key of the packages that load classes. -/
def loadingKey : Text :=
  "dcl_package_name"

/-- The keys of a result file. -/
def keys : List Text :=
  columns ++ [reflectiveKey, loadingKey]

/-- A key and its value on a line. -/
def keyed (pair : Text × Text) : Text :=
  pair.1 ++ "=" ++ pair.2

/-- The values that some pairs have under a key. -/
def select (key : Text) (pairs : List (Text × Text)) : List Text :=
  pairs.filterMap fun pair => if key = pair.1 then some pair.2 else none

/-- The keys and values of a result file. -/
def entries (verdict : Verdict) : List (Text × Text) :=
  columns.zip verdict.cells ++ verdict.reflectivePackages.toList.map (reflectiveKey, ·) ++
    verdict.loadingPackages.toList.map (loadingKey, ·)

theorem resultFile_eq (verdict : Verdict) :
    verdict.resultFile = (verdict.entries.map keyed).flatMap (· ++ ['\n']) := by
  simp only [entries, resultFile, List.map_append, List.flatMap_append, List.map_map,
    List.flatMap_map]
  rfl

theorem key_mem_keys {verdict : Verdict} {pair : Text × Text} (member : pair ∈ verdict.entries) :
    pair.1 ∈ keys := by
  rw [entries, List.mem_append, List.mem_append] at member
  rw [keys, List.mem_append]
  rcases member with (inColumns | reflective) | loading
  · exact .inl (List.of_mem_zip inColumns).1
  · obtain ⟨name, -, rfl⟩ := List.mem_map.mp reflective
    exact .inr (by simp)
  · obtain ⟨name, -, rfl⟩ := List.mem_map.mp loading
    exact .inr (by simp)

theorem free_of_mem_keys {key : Text} (member : key ∈ keys) : '=' ∉ key ∧ '\n' ∉ key := by
  have all : keys.all (fun key => !key.contains '=' && !key.contains '\n') = true := by
    decide +kernel
  simpa using List.all_eq_true.mp all key member

/-- A key of an unbroken result file has the values that were written under it. -/
theorem valuesOf_resultFile {verdict : Verdict} {key : Text}
    (unbroken : ∀ pair ∈ verdict.entries, '\n' ∉ pair.2) (isKey : key ∈ keys) :
    valuesOf key verdict.resultFile = select key verdict.entries := by
  have free : ∀ line ∈ verdict.entries.map keyed, '\n' ∉ line := by
    intro line member
    obtain ⟨pair, isPair, rfl⟩ := List.mem_map.mp member
    have keyFree := (free_of_mem_keys (key_mem_keys isPair)).2
    simp [keyed, keyFree, unbroken pair isPair]
  have nothing : after? (key ++ "=") [] = none := by
    cases key <;> rfl
  rw [valuesOf, resultFile_eq, fields_closed free, List.filterMap_append, List.filterMap_map,
    List.filterMap_cons_none nothing, List.filterMap_nil, List.append_nil]
  apply List.filterMap_congr
  intro pair isPair
  exact after?_key (free_of_mem_keys isKey).1 (free_of_mem_keys (key_mem_keys isPair)).1 pair.2

/-! ### Cells -/

/-- The packer with a written form. -/
def packer? (name : Text) : Option Packer :=
  [Packer.unpacked, .managed, .native].find? fun packer => packer.name == name

/-- The flag with a written form. -/
def flag? (text : Text) : Option Bool :=
  [true, false].find? fun value => flag value == text

theorem packer?_name (packer : Packer) : packer? packer.name = some packer := by
  cases packer <;> decide +kernel

theorem flag?_flag (value : Bool) : flag? (flag value) = some value := by
  cases value <;> decide +kernel

/-- The verdict with some cells, as far as they tell. -/
def ofCells? : List Text → Option Verdict
  | [packageName, application, packer, reflection, loading, reflectionInApp, loadingInApp] => do
    let packer ← packer? packer
    let usesReflection ← flag? reflection
    let usesLoading ← flag? loading
    let reflectionInApp ← flag? reflectionInApp
    let loadingInApp ← flag? loadingInApp
    pure {
      packageName
      applicationPackage := if application = "null" then none else some application
      packer, usesReflection, reflectionInApp, usesLoading, loadingInApp }
  | _ => none

/-- The names of a verdict, apart from its two sets, hold none of some characters, and the absence
of an application package is not its name. -/
structure NamesAreFree (marks : Text) (verdict : Verdict) : Prop where
  packageName : ∀ mark ∈ marks, mark ∉ verdict.packageName
  application : ∀ name, verdict.applicationPackage = some name →
    name ≠ ("null" : Text) ∧ ∀ mark ∈ marks, mark ∉ name

theorem ofCells?_cells {marks : Text} {verdict : Verdict} (free : verdict.NamesAreFree marks) :
    ofCells? verdict.cells =
      some { verdict with loadingPackages := .empty, reflectivePackages := .empty } := by
  have application : (if verdict.applicationName = "null" then none
      else some verdict.applicationName) = verdict.applicationPackage := by
    rw [applicationName]
    cases given : verdict.applicationPackage with
    | none => rfl
    | some name => exact if_neg (free.application name given).1
  simp only [cells, ofCells?, packer?_name, flag?_flag, application, bind, Option.bind_some, pure]

/-- A mark of the written form stands in no cell, unless it stands in a name. -/
theorem not_mem_of_mem_cells {marks : Text} {verdict : Verdict} {mark : Char} {cell : Text}
    (free : verdict.NamesAreFree marks) (isMark : mark ∈ marks)
    (isControl : mark = '\n' ∨ mark = '\t') (member : cell ∈ verdict.cells) : mark ∉ cell := by
  have words : ["null", "NONE", "MANAGED", "NATIVE", "YES", "NO"].all (fun word : String =>
      !word.toList.contains '\n' && !word.toList.contains '\t') = true := by decide +kernel
  have word {text : String} (listed : text ∈ ["null", "NONE", "MANAGED", "NATIVE", "YES", "NO"]) :
      mark ∉ text.toList := by
    have plain : '\n' ∉ text.toList ∧ '\t' ∉ text.toList := by
      simpa using List.all_eq_true.mp words text listed
    rcases isControl with rfl | rfl
    · exact plain.1
    · exact plain.2
  have flagged (value : Bool) : mark ∉ flag value := by
    cases value <;> exact word (by simp)
  have named : mark ∉ verdict.applicationName := by
    rw [applicationName]
    cases given : verdict.applicationPackage with
    | none => exact word (by simp)
    | some name => exact (free.application name given).2 mark isMark
  have packed : mark ∉ verdict.packer.name := by
    cases verdict.packer <;> exact word (by simp)
  simp only [cells, List.mem_cons, List.not_mem_nil, or_false] at member
  rcases member with rfl | rfl | rfl | rfl | rfl | rfl | rfl
  · exact free.packageName mark isMark
  · exact named
  · exact packed
  all_goals exact flagged _

/-! ### Result files -/

/-- The names of a verdict keep to their lines in its result file. -/
structure IsUnbroken (verdict : Verdict) : Prop where
  names : verdict.NamesAreFree ['\n']
  loading : ∀ name ∈ verdict.loadingPackages.toList, '\n' ∉ name
  reflective : ∀ name ∈ verdict.reflectivePackages.toList, '\n' ∉ name

theorem IsUnbroken.not_mem_value {verdict : Verdict} (unbroken : verdict.IsUnbroken) :
    ∀ pair ∈ verdict.entries, '\n' ∉ pair.2 := by
  intro pair member
  rw [entries, List.mem_append, List.mem_append] at member
  rcases member with (inColumns | reflective) | loading
  · exact not_mem_of_mem_cells unbroken.names (by simp) (.inl rfl) (List.of_mem_zip inColumns).2
  · obtain ⟨name, isName, rfl⟩ := List.mem_map.mp reflective
    exact unbroken.reflective name isName
  · obtain ⟨name, isName, rfl⟩ := List.mem_map.mp loading
    exact unbroken.loading name isName

/-- The verdict that a result file tells of. -/
def ofResultFile? (text : Text) : Option Verdict := do
  let verdict ← ofCells? (columns.filterMap fun key => (valuesOf key text).head?)
  pure { verdict with
    reflectivePackages := .ofList (valuesOf reflectiveKey text)
    loadingPackages := .ofList (valuesOf loadingKey text) }

theorem select_append (key : Text) (left right : List (Text × Text)) :
    select key (left ++ right) = select key left ++ select key right :=
  List.filterMap_append

theorem select_same (key : Text) (values : List Text) :
    select key (values.map (key, ·)) = values := by
  rw [select, List.filterMap_map]
  simp

theorem select_other {key other : Text} (different : key ≠ other) (values : List Text) :
    select key (values.map (other, ·)) = [] := by
  rw [select, List.filterMap_map]
  simp [different]

/-- The value of a column stands under its key, and no other value does. -/
theorem select_column {key : Text} (verdict : Verdict) (isColumn : key ∈ columns) :
    select key verdict.entries = select key (columns.zip verdict.cells) := by
  have others : columns.all (fun key => key != reflectiveKey && key != loadingKey) = true := by
    decide +kernel
  have different : key ≠ reflectiveKey ∧ key ≠ loadingKey := by
    simpa using List.all_eq_true.mp others key isColumn
  rw [entries, select_append, select_append, select_other different.1, select_other different.2,
    List.append_nil, List.append_nil]

theorem select_reflectiveKey (verdict : Verdict) :
    select reflectiveKey verdict.entries = verdict.reflectivePackages.toList := by
  rw [entries, select_append, select_append, select_same, select_other (by decide),
    List.append_nil]
  rfl

theorem select_loadingKey (verdict : Verdict) :
    select loadingKey verdict.entries = verdict.loadingPackages.toList := by
  rw [entries, select_append, select_append, select_same, select_other (by decide)]
  rfl

theorem ofResultFile?_resultFile {verdict : Verdict} (unbroken : verdict.IsUnbroken) :
    ofResultFile? verdict.resultFile = some verdict := by
  have values {key : Text} (isKey : key ∈ keys) :
      valuesOf key verdict.resultFile = select key verdict.entries :=
    valuesOf_resultFile unbroken.not_mem_value isKey
  have cells : (columns.filterMap fun key => (valuesOf key verdict.resultFile).head?) =
      verdict.cells := by
    have byColumn : (columns.filterMap fun key => (valuesOf key verdict.resultFile).head?) =
        columns.filterMap fun key => (select key (columns.zip verdict.cells)).head? := by
      apply List.filterMap_congr
      intro key isColumn
      rw [values (List.mem_append_left _ isColumn), select_column verdict isColumn]
    rw [byColumn]
    rfl
  simp only [ofResultFile?, cells, bind, Option.bind_some, ofCells?_cells unbroken.names,
    values (show reflectiveKey ∈ keys by simp [keys]),
    values (show loadingKey ∈ keys by simp [keys]), select_reflectiveKey, select_loadingKey,
    NameSet.ofList_toList, pure]

/-! ### Rows -/

/-- The cells of a row, which ends at its line feed. -/
def rowCells (row : Text) : List Text :=
  fields (· == '\t') (row.takeWhile (· != '\n'))

theorem rowCells_tableRow {verdict : Verdict} (free : verdict.NamesAreFree ['\n', '\t']) :
    rowCells verdict.tableRow = verdict.cells := by
  have absent {mark : Char} (isControl : mark = '\n' ∨ mark = '\t') :
      ∀ cell ∈ verdict.cells, mark ∉ cell := by
    intro cell
    exact not_mem_of_mem_cells free (by simpa using isControl) isControl
  have unbroken : '\n' ∉ join ['\t'] verdict.cells :=
    not_mem_join (absent (.inl rfl)) (by decide)
  have line : verdict.tableRow.takeWhile (· != '\n') = join ['\t'] verdict.cells := by
    rw [tableRow, List.takeWhile_append_of_pos]
    · simp
    · intro c member
      have different : c ≠ '\n' := fun same => unbroken (same ▸ member)
      simpa using different
  rw [rowCells, line]
  exact fields_join (absent (.inr rfl))

/-! ### Both forms -/

/-- Neither written form loses what it holds. A result file is read back as the verdict, so that
verdicts with the same file are equal. A row of the table has seven cells, and verdicts with the
same row agree in all that is in the table. -/
theorem eq_of_written_eq :
    (∀ verdict : Verdict, verdict.IsUnbroken →
      ofResultFile? verdict.resultFile = some verdict) ∧
    (∀ left right : Verdict, left.IsUnbroken → right.IsUnbroken →
      left.resultFile = right.resultFile → left = right) ∧
    (∀ verdict : Verdict, verdict.NamesAreFree ['\n', '\t'] →
      (rowCells verdict.tableRow).length = 7) ∧
    ∀ left right : Verdict, left.NamesAreFree ['\n', '\t'] → right.NamesAreFree ['\n', '\t'] →
      left.tableRow = right.tableRow →
        left.packageName = right.packageName ∧
        left.applicationPackage = right.applicationPackage ∧ left.packer = right.packer ∧
        left.usesReflection = right.usesReflection ∧ left.usesLoading = right.usesLoading ∧
        left.reflectionInApp = right.reflectionInApp ∧ left.loadingInApp = right.loadingInApp := by
  refine ⟨fun verdict => ofResultFile?_resultFile, ?_, ?_, ?_⟩
  · intro left right leftUnbroken rightUnbroken same
    have read := ofResultFile?_resultFile leftUnbroken
    rw [same, ofResultFile?_resultFile rightUnbroken] at read
    exact (Option.some.inj read).symm
  · intro verdict free
    rw [rowCells_tableRow free]
    rfl
  · intro left right leftFree rightFree same
    have cells : left.cells = right.cells := by
      rw [← rowCells_tableRow leftFree, same, rowCells_tableRow rightFree]
    have read := ofCells?_cells leftFree
    rw [cells, ofCells?_cells rightFree, Option.some.injEq, mk.injEq] at read
    obtain ⟨package, application, packer, reflection, inApp, loading, loadingInApp, -, -⟩ := read
    exact ⟨package.symm, application.symm, packer.symm, reflection.symm, loading.symm, inApp.symm,
      loadingInApp.symm⟩

/-- A verdict whose names hold equals signs. -/
def crossed (reflective loading : List Text) : Verdict :=
  { packageName := "a=b"
    applicationPackage := some "null="
    packer := .native
    loadingInApp := true
    reflectivePackages := .ofList reflective
    loadingPackages := .ofList loading }

theorem namesAreFree_crossed {marks : Text} (reflective loading : List Text)
    (plain : marks.all (fun mark => !("a=b".toList ++ "null=".toList).contains mark) = true) :
    (crossed reflective loading).NamesAreFree marks := by
  have free : ∀ mark ∈ marks, mark ∉ "a=b".toList ∧ mark ∉ "null=".toList := by
    intro mark isMark
    have absent := List.all_eq_true.mp plain mark isMark
    simpa [and_assoc] using absent
  refine ⟨fun mark isMark => (free mark isMark).1, ?_⟩
  intro name given
  obtain rfl : "null=".toList = name := Option.some.inj given
  exact ⟨by decide, fun mark isMark => (free mark isMark).2⟩

theorem isUnbroken_crossed {reflective loading : List Text}
    (plain : (reflective ++ loading).all (fun name => !name.contains '\n') = true) :
    (crossed reflective loading).IsUnbroken := by
  have free : ∀ name, name ∈ reflective ∨ name ∈ loading → '\n' ∉ name := by
    simpa [or_imp, forall_and] using plain
  refine ⟨namesAreFree_crossed reflective loading (by decide), ?_, ?_⟩
  · intro name member
    exact free name (.inr (NameSet.mem_ofList.mp member))
  · intro name member
    exact free name (.inl (NameSet.mem_ofList.mp member))

/-- The keys of the two sets are told from names that look like them. -/
theorem eq_of_written_eq_crossed :
    ofResultFile? (crossed ["dcl_package_name=x", "x"] ["reflective_package_name=x"]).resultFile =
      some (crossed ["dcl_package_name=x", "x"] ["reflective_package_name=x"]) ∧
    crossed ["x", "dcl_package_name=x"] [] = crossed ["dcl_package_name=x", "x"] [] ∧
    (rowCells (crossed ["x"] []).tableRow).length = 7 ∧
    (crossed ["x"] []).applicationPackage = (crossed [] ["x"]).applicationPackage := by
  obtain ⟨read, same, seven, agree⟩ := eq_of_written_eq
  have free (reflective loading : List Text) :
      (crossed reflective loading).NamesAreFree ['\n', '\t'] :=
    namesAreFree_crossed reflective loading (by decide)
  refine ⟨read _ (isUnbroken_crossed (by decide)), ?_, seven _ (free _ _), ?_⟩
  · exact same _ _ (isUnbroken_crossed (by decide)) (isUnbroken_crossed (by decide))
      (by decide +kernel)
  · exact (agree _ _ (free _ _) (free _ _) rfl).2.1

end Verdict

end Unpacking
