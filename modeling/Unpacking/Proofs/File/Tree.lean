import Mathlib.Data.List.Nodup
import Unpacking.File.Tree
import Unpacking.Proofs.File.Path

/-!
What the operations on a tree of files do, apart from how a path is walked. A path leads to one
place, whatever the tree holds; the tree only decides whether the way to that place is open. Main
statements: `resolve_eq_ok_iff`, `writeFile_of_isOpen`, `createDirectories_eq_ok`,
`readText_of_writeFile`, `nodup_children`.
-/

namespace Unpacking.Tree

open Text

variable {tree changed : Tree} {names place : Names} {part name path base : Text}

/-! ### The way along a path -/

@[simp] theorem lookup_nil (tree : Tree) : tree.lookup [] = some .directory := rfl

theorem next_of_isPlain (plain : Path.isPlain name = true) (names : Names) :
    next names name = names ++ [name] := by
  obtain ⟨filled, notCurrent, notParent, -⟩ := Path.isPlain_iff.mp plain
  rw [next, if_neg (by simpa using ⟨filled, notCurrent⟩), if_neg (by simpa using notParent)]

/-- The places on the way along some parts of a path are directories, the last place left out. -/
def Passes (tree : Tree) : Names → List Text → Prop
  | _, [] => True
  | names, part :: rest => tree.lookup names = some .directory ∧ tree.Passes (next names part) rest

theorem passes_append (left right : List Text) :
    tree.Passes names (left ++ right) ↔
      tree.Passes names left ∧ tree.Passes (left.foldl next names) right := by
  induction left generalizing names with
  | nil => simp [Passes]
  | cons part left inductionHypothesis =>
    simp only [List.cons_append, Passes, List.foldl_cons, inductionHypothesis, and_assoc]

theorem Passes.lookup_head {parts : List Text} (passes : tree.Passes names parts)
    (last : tree.lookup (parts.foldl next names) = some .directory) :
    tree.lookup names = some .directory := by
  cases parts with
  | nil => exact last
  | cons part rest => exact passes.1

/-- The place that a path leads to. -/
def goal (path : Text) : Names :=
  (start path).2.foldl next (start path).1

/-- Nothing is in the way of a path: it passes through directories. -/
def IsOpen (tree : Tree) (path : Text) : Prop :=
  tree.Passes (start path).1 (start path).2

theorem enter_eq_ok_iff :
    tree.enter names part = .ok place ↔
      tree.lookup names = some .directory ∧ next names part = place := by
  rw [enter]
  split
  · rename_i absent
    simp [absent]
  · rename_i stands
    simp [stands]
  · rename_i other notDirectory stands
    have different : other ≠ .directory := notDirectory
    simp [stands, different]

theorem foldlM_enter_eq_ok_iff {parts : List Text} :
    parts.foldlM tree.enter names = .ok place ↔
      tree.Passes names parts ∧ parts.foldl next names = place := by
  induction parts generalizing names with
  | nil => simp [Passes, pure, Except.pure]
  | cons part rest inductionHypothesis =>
    rw [List.foldlM_cons, List.foldl_cons, Passes]
    cases entered : tree.enter names part with
    | error error =>
      have closed : tree.lookup names ≠ some .directory := by
        intro stands
        rw [enter_eq_ok_iff.mpr ⟨stands, rfl⟩] at entered
        simp at entered
      simp [bind, Except.bind, closed]
    | ok reached =>
      obtain ⟨stands, rfl⟩ := enter_eq_ok_iff.mp entered
      simp [bind, Except.bind, stands, inductionHypothesis]

theorem resolve_eq_ok_iff :
    tree.resolve path = .ok place ↔ path ≠ [] ∧ tree.IsOpen path ∧ goal path = place := by
  rw [resolve]
  split
  · rename_i empty
    simp [List.isEmpty_iff.mp empty]
  · rename_i filled
    have filled : path ≠ [] := by simpa using filled
    simp only [foldlM_enter_eq_ok_iff, IsOpen, goal, ne_eq, filled, not_false_eq_true, true_and]

theorem begins_slash_append {left : Text} (filled : left ≠ []) (right : Text) :
    begins "/" (left ++ right) = begins "/" left := by
  cases left with
  | nil => exact absurd rfl filled
  | cons c rest => simp [begins, List.isPrefixOf]

theorem fst_start_append {left : Text} (filled : left ≠ []) (right : Text) :
    (start (left ++ right)).1 = (start left).1 := by
  simp only [start, begins_slash_append filled]
  split <;> rfl

theorem snd_start (path : Text) : (start path).2 = fields (· == '/') path := by
  rw [start]
  split <;> rfl

theorem fst_start_of_free (free : '/' ∉ name) : (start name).1 = [] := by
  rw [start, if_neg (by rw [Path.begins_slash_of_free free]; decide)]

/-- A path in a directory has the parts of the directory's path, and the name behind them. -/
theorem start_join (plain : Path.isPlain name = true) (base : Text) :
    ∃ parts, goal base = parts.foldl next (start base).1 ∧
      (∀ tree : Tree, tree.lookup (goal base) = some .directory →
        (tree.IsOpen base ↔ tree.Passes (start base).1 parts)) ∧
      start (Path.join base name) = ((start base).1, parts ++ [name]) := by
  have free := (Path.isPlain_iff.mp plain).2.2.2
  have cut (front : Text) : fields (· == '/') (front ++ ['/'] ++ name) =
      fields (· == '/') front ++ [name] := by
    rw [List.append_assoc, List.singleton_append, fields_append_separator (by rfl),
      Path.fields_of_isPlain plain]
  rw [Path.join_of_free free]
  rcases Path.lead_cases base with ⟨empty, rfl⟩ | ⟨front, closed, rfl | ⟨rfl, filled⟩⟩
  · refine ⟨[], rfl, fun tree _ => ⟨fun _ => trivial, fun _ => ⟨rfl, trivial⟩⟩, ?_⟩
    rw [empty, List.nil_append]
    exact Prod.ext (fst_start_of_free free) (by rw [snd_start, Path.fields_of_isPlain plain]; rfl)
  · have cutBase : fields (· == '/') (front ++ ['/']) = fields (· == '/') front ++ [[]] :=
      fields_append_separator (by rfl) front []
    have leads : goal (front ++ ['/']) =
        (fields (· == '/') front).foldl next (start (front ++ ['/'])).1 := by
      rw [goal, snd_start, cutBase, List.foldl_append]
      rfl
    refine ⟨fields (· == '/') front, leads, fun tree stands => ?_, ?_⟩
    · rw [IsOpen, snd_start, cutBase, passes_append, ← leads]
      simp [Passes, stands]
    · rw [closed]
      exact Prod.ext (fst_start_append (by simp) name) (by rw [snd_start, cut])
  · refine ⟨fields (· == '/') base, by rw [goal, snd_start],
      fun tree _ => by rw [IsOpen, snd_start], ?_⟩
    rw [closed]
    refine Prod.ext ?_ (by rw [snd_start, cut])
    rw [List.append_assoc, fst_start_append filled]

theorem goal_join (plain : Path.isPlain name = true) (base : Text) :
    goal (Path.join base name) = goal base ++ [name] := by
  obtain ⟨parts, leads, -, begun⟩ := start_join plain base
  rw [goal, begun, List.foldl_append, List.foldl_cons, List.foldl_nil, ← leads,
    next_of_isPlain plain]

theorem isOpen_join_iff (plain : Path.isPlain name = true) :
    tree.IsOpen (Path.join base name) ↔
      tree.IsOpen base ∧ tree.lookup (goal base) = some .directory := by
  obtain ⟨parts, leads, opens, begun⟩ := start_join plain base
  rw [IsOpen, begun, passes_append, ← leads]
  simp only [Passes, and_true]
  constructor
  · rintro ⟨passes, stands⟩
    exact ⟨(opens tree stands).mpr passes, stands⟩
  · rintro ⟨isOpen, stands⟩
    exact ⟨(opens tree stands).mp isOpen, stands⟩

theorem join_ne_nil (plain : Path.isPlain name = true) (base : Text) :
    Path.join base name ≠ [] := by
  obtain ⟨filled, -, -, free⟩ := Path.isPlain_iff.mp plain
  rw [Path.join_of_free free]
  simp [filled]

/-! ### Trees that keep their directories -/

/-- What is a directory stays one. -/
def KeepsDirectories (before after : Tree) : Prop :=
  ∀ names, before.lookup names = some .directory → after.lookup names = some .directory

theorem KeepsDirectories.refl (tree : Tree) : tree.KeepsDirectories tree :=
  fun _ stands => stands

theorem KeepsDirectories.trans {first second third : Tree} (left : first.KeepsDirectories second)
    (right : second.KeepsDirectories third) : first.KeepsDirectories third :=
  fun names stands => right names (left names stands)

theorem Passes.keep {parts : List Text} (keeps : tree.KeepsDirectories changed)
    (passes : tree.Passes names parts) : changed.Passes names parts := by
  induction parts generalizing names with
  | nil => exact trivial
  | cons part rest inductionHypothesis =>
    exact ⟨keeps names passes.1, inductionHypothesis passes.2⟩

theorem IsOpen.keep (keeps : tree.KeepsDirectories changed) (isOpen : tree.IsOpen path) :
    changed.IsOpen path :=
  Passes.keep keeps isOpen

/-- An entry that takes the place of no directory leaves all directories as they are. -/
theorem keepsDirectories_put (entry : Entry) (free : tree.lookup names ≠ some .directory) :
    tree.KeepsDirectories (tree.put names entry) := by
  intro other stands
  have different : other ≠ names := by
    rintro rfl
    exact free stands
  rw [lookup_put_other tree entry different, stands]

/-! ### Files -/

/-- A file is written on an open path, unless a directory stands there. -/
theorem writeFile_of_isOpen (filled : path ≠ []) (isOpen : tree.IsOpen path)
    (content : FileContent) :
    tree.writeFile path content =
      if tree.lookup (goal path) = some .directory then .error .isDirectory
      else .ok (tree.put (goal path) (.file content)) := by
  rw [writeFile, resolve_eq_ok_iff.mpr ⟨filled, isOpen, rfl⟩]
  by_cases taken : tree.lookup (goal path) = some .directory
  · simp [taken]
  · have proper : goal path ≠ [] := by
      intro empty
      rw [empty] at taken
      exact taken rfl
    simp only [taken, if_false]
    split
    · rename_i empty
      exact absurd (List.isEmpty_iff.mp empty) proper
    · rfl

theorem writeFile_eq_ok {content : FileContent}
    (written : tree.writeFile path content = .ok changed) :
    path ≠ [] ∧ tree.IsOpen path ∧ tree.lookup (goal path) ≠ some .directory ∧
      changed = tree.put (goal path) (.file content) := by
  cases resolved : tree.resolve path with
  | error error => simp [writeFile, resolved] at written
  | ok place =>
    obtain ⟨filled, isOpen, rfl⟩ := resolve_eq_ok_iff.mp resolved
    rw [writeFile_of_isOpen filled isOpen] at written
    split at written
    · simp at written
    · rename_i free
      exact ⟨filled, isOpen, free, (Except.ok.inj written).symm⟩

/-- What was written is read back. -/
theorem readText_of_writeFile {text : Text}
    (written : tree.writeFile path (.text text) = .ok changed) :
    changed.readText path = .ok text := by
  obtain ⟨filled, isOpen, free, rfl⟩ := writeFile_eq_ok written
  have stillOpen := isOpen.keep (keepsDirectories_put (.file (.text text)) free)
  have proper : goal path ≠ [] := by
    intro empty
    rw [empty] at free
    exact free rfl
  rw [readText, resolve_eq_ok_iff.mpr ⟨filled, stillOpen, rfl⟩]
  simp [textAt, lookup_put_same tree _ proper]

/-! ### Directories -/

theorem enterOrCreate_eq_ok (made : enterOrCreate (tree, names) part = .ok (changed, place)) :
    tree.KeepsDirectories changed ∧ changed.lookup names = some .directory ∧
      next names part = place ∧ changed.lookup place = some .directory := by
  rw [enterOrCreate] at made
  cases entered : tree.enter names part with
  | error error => simp [entered] at made
  | ok reached =>
    obtain ⟨stands, rfl⟩ := enter_eq_ok_iff.mp entered
    simp only [entered] at made
    split at made
    · rename_i absent
      obtain ⟨rfl, rfl⟩ := Prod.mk.inj (Except.ok.inj made)
      have keeps : tree.KeepsDirectories (tree.put (next names part) .directory) :=
        keepsDirectories_put .directory (by rw [absent]; simp)
      have proper : next names part ≠ [] := by
        intro empty
        rw [empty] at absent
        simp at absent
      exact ⟨keeps, keeps names stands, rfl, lookup_put_same tree _ proper⟩
    · rename_i there
      obtain ⟨rfl, rfl⟩ := Prod.mk.inj (Except.ok.inj made)
      exact ⟨.refl tree, stands, rfl, there⟩
    · simp at made

theorem foldlM_enterOrCreate_eq_ok {parts : List Text}
    (made : parts.foldlM enterOrCreate (tree, names) = .ok (changed, place)) :
    tree.KeepsDirectories changed ∧ changed.Passes names parts ∧ parts.foldl next names = place ∧
      (parts ≠ [] → changed.lookup place = some .directory) := by
  induction parts generalizing tree names with
  | nil =>
    obtain ⟨rfl, rfl⟩ := Prod.mk.inj (Except.ok.inj made)
    exact ⟨.refl tree, trivial, rfl, by simp⟩
  | cons part rest inductionHypothesis =>
    rw [List.foldlM_cons] at made
    cases entered : enterOrCreate (tree, names) part with
    | error error => simp [entered, bind, Except.bind] at made
    | ok state =>
      obtain ⟨between, reached⟩ := state
      obtain ⟨keeps, stands, rfl, there⟩ := enterOrCreate_eq_ok entered
      simp only [entered, bind, Except.bind] at made
      obtain ⟨keepsOn, passes, rfl, last⟩ := inductionHypothesis made
      refine ⟨keeps.trans keepsOn, ⟨keepsOn names stands, passes⟩, rfl, fun _ => ?_⟩
      cases rest with
      | nil => exact keepsOn _ there
      | cons part rest => exact last (by simp)

/-- Once the directories on a path are made, the path is open and leads to a directory. -/
theorem createDirectories_eq_ok (made : tree.createDirectories path = .ok changed) :
    tree.KeepsDirectories changed ∧ changed.IsOpen path ∧
      changed.lookup (goal path) = some .directory := by
  rw [createDirectories] at made
  split at made
  · rename_i empty
    obtain rfl := Except.ok.inj made
    rw [List.isEmpty_iff.mp empty]
    exact ⟨.refl tree, ⟨rfl, trivial⟩, rfl⟩
  · cases folded : (start path).2.foldlM enterOrCreate (tree, (start path).1) with
    | error error => simp [folded, Except.map] at made
    | ok state =>
      simp only [folded, Except.map] at made
      obtain rfl := Except.ok.inj made
      obtain ⟨made, place⟩ := state
      obtain ⟨keeps, passes, leads, last⟩ := foldlM_enterOrCreate_eq_ok folded
      refine ⟨keeps, passes, ?_⟩
      rw [goal, leads]
      apply last
      rw [snd_start]
      exact fields_ne_nil path

/-! ### Listings -/

/-- The name of a place that stands directly in a directory. -/
def childName? (directory names : Names) : Option Text :=
  if directory.isPrefixOf names && (names.drop directory.length).head?.any Path.isPlain then
    match names.drop directory.length with
    | [name] => some name
    | _ => none
  else none

theorem childName?_eq_some {directory : Names} (found : childName? directory names = some name) :
    names = directory ++ [name] ∧ Path.isPlain name = true := by
  rw [childName?] at found
  split at found
  · rename_i inside
    split at found
    · rename_i only rest
      obtain rfl := Option.some.inj found
      rw [rest, Bool.and_eq_true, List.isPrefixOf_iff_prefix] at inside
      refine ⟨?_, by simpa using inside.2⟩
      rw [← rest]
      exact (List.prefix_iff_eq_append.mp inside.1).symm
    · simp at found
  · simp at found

theorem children_eq (tree : Tree) (directory : Names) :
    tree.children directory = (tree.entries.map Prod.fst).filterMap (childName? directory) := by
  rw [children, below, List.filterMap_filterMap, List.filterMap_map]
  congr 1
  funext entry
  simp only [Function.comp_apply, childName?]
  split <;> rfl

/-- The names in a directory are plain. -/
theorem isPlain_of_mem_children {directory : Names} (member : name ∈ tree.children directory) :
    Path.isPlain name = true := by
  rw [children_eq, List.mem_filterMap] at member
  obtain ⟨names, -, found⟩ := member
  exact (childName?_eq_some found).2

/-- The names in a directory are different from each other. -/
theorem nodup_children (tree : Tree) (directory : Names) : (tree.children directory).Nodup := by
  rw [children_eq]
  apply List.Nodup.filterMap _ tree.distinct
  intro left right name leftFound rightFound
  rw [(childName?_eq_some leftFound).1, (childName?_eq_some rightFound).1]

end Unpacking.Tree
