import Mathlib.Data.List.Sort
import Unpacking.Batch.Layout
import Unpacking.Discovery
import Unpacking.Package.Decompiled
import Unpacking.Proofs.File.Tree

/-!
Stems of the packages that are found in a directory. All artifacts of a package are named by its
stem, which is its name without the extension, so different packages can share them. Main
statement: `stems_of_find` tells which packages do.
-/

namespace Unpacking

open Text

namespace PackageInput

/-- The forms that the name of a package can have when its artifacts are named by a stem. -/
inductive IsNamedBy (stem : Text) : PackageKind → Text → Prop
  /-- An app file has its extension in letters of either case. -/
  | app (extension : Text) (spelled : extension.map Char.toLower = "apk") (filled : stem ≠ []) :
    IsNamedBy stem .app (stem ++ '.' :: extension)
  /-- A directory may have no extension. -/
  | bare (free : '.' ∉ stem.tail) : IsNamedBy stem .decompiled stem
  /-- A directory may have any extension. -/
  | dotted (extension : Text) (free : '.' ∉ extension) (filled : stem ≠ []) :
    IsNamedBy stem .decompiled (stem ++ '.' :: extension)

/-- The names of two packages differ behind a common stem, if at all. -/
def SharesStem (left right : PackageInput) : Prop :=
  ∃ stem, IsNamedBy stem left.kind left.name ∧ IsNamedBy stem right.kind right.name

theorem IsNamedBy.nameStem_eq {stem name : Text} {kind : PackageKind}
    (named : IsNamedBy stem kind name) : Path.nameStem name = stem := by
  rw [Path.nameStem]
  cases named with
  | app extension spelled filled =>
    have free : '.' ∉ extension := by
      intro dotted
      have lowered : '.' ∈ extension.map Char.toLower := List.mem_map_of_mem dotted
      rw [spelled] at lowered
      simp at lowered
    rw [Path.cutName?_eq_some_iff.mpr ⟨rfl, filled, free⟩]
  | bare free => rw [Path.cutName?_eq_none_iff.mpr free]
  | dotted extension free filled => rw [Path.cutName?_eq_some_iff.mpr ⟨rfl, filled, free⟩]

theorem IsNamedBy.subset {stem name : Text} {kind : PackageKind}
    (named : IsNamedBy stem kind name) : stem ⊆ name := by
  cases named with
  | app extension spelled filled => exact List.subset_append_left stem _
  | bare free => exact List.Subset.refl stem
  | dotted extension free filled => exact List.subset_append_left stem _

end PackageInput

namespace Discovery

variable {tree : Tree} {blacklist : List Text} {directory : Text} {packages : List PackageInput}

/-- A package stands in its directory by a plain name of the form that its kind asks for. -/
structure IsIn (directory : Text) (input : PackageInput) : Prop where
  path_eq : input.path = Path.join directory input.name
  plain : Path.isPlain input.name = true
  named : PackageInput.IsNamedBy input.stem input.kind input.name

theorem isNamedBy_of_kind? {name : Text} {kind : PackageKind} (plain : Path.isPlain name = true)
    (found : kind? tree (Path.join directory name) = some kind) :
    PackageInput.IsNamedBy (Path.nameStem name) kind name := by
  rw [kind?, Path.extension?, Path.fileName?_join plain, Option.bind_some] at found
  cases cut : Path.cutName? name with
  | none =>
    have stem : Path.nameStem name = name := by rw [Path.nameStem, cut]
    rw [cut] at found
    simp only [Option.map_none] at found
    split at found
    · simp at found
    · split at found
      · obtain rfl := Option.some.inj found
        rw [stem]
        exact .bare (Path.cutName?_eq_none_iff.mp cut)
      · simp at found
  | some parts =>
    obtain ⟨stem, extension⟩ := parts
    obtain ⟨whole, filled, free⟩ := Path.cutName?_eq_some_iff.mp cut
    have stemEq : Path.nameStem name = stem := by rw [Path.nameStem, cut]
    rw [cut] at found
    simp only [Option.map_some] at found
    rw [stemEq, whole]
    split at found
    · split at found
      · rename_i spelled
        obtain rfl := Option.some.inj found
        exact .app extension (beq_iff_eq.mp spelled) filled
      · simp at found
    · split at found
      · obtain rfl := Option.some.inj found
        exact .dotted extension free filled
      · simp at found

theorem isIn_of_kind? {name : Text} {kind : PackageKind} (plain : Path.isPlain name = true)
    (found : kind? tree (Path.join directory name) = some kind) :
    IsIn directory { path := Path.join directory name, kind } := by
  have fileName := Path.fileName?_join plain directory
  have nameEq : PackageInput.name { path := Path.join directory name, kind } = name := by
    rw [PackageInput.name, fileName]
    rfl
  have stemEq : PackageInput.stem { path := Path.join directory name, kind } =
      Path.nameStem name := by
    rw [PackageInput.stem, Path.fileStem?, fileName]
    rfl
  exact
    { path_eq := by rw [nameEq]
      plain := by rw [nameEq]; exact plain
      named := by rw [nameEq, stemEq]; exact isNamedBy_of_kind? plain found }

theorem isIn_of_mem_packagesIn {names : List Text} {input : PackageInput}
    (plain : ∀ name ∈ names, Path.isPlain name = true)
    (member : input ∈ packagesIn tree directory names) : IsIn directory input := by
  rw [packagesIn, List.mem_filterMap] at member
  obtain ⟨name, isName, found⟩ := member
  obtain ⟨kind, isKind, rfl⟩ := Option.map_eq_some_iff.mp found
  exact isIn_of_kind? (plain name isName) isKind

theorem nodup_paths_packagesIn {names : List Text}
    (plain : ∀ name ∈ names, Path.isPlain name = true) (distinct : names.Nodup) :
    ((packagesIn tree directory names).map PackageInput.path).Nodup := by
  rw [packagesIn, List.Nodup, List.pairwise_map, List.pairwise_filterMap]
  apply distinct.imp_of_mem
  intro left right isLeft isRight different one leftFound other rightFound same
  obtain ⟨_, -, rfl⟩ := Option.map_eq_some_iff.mp leftFound
  obtain ⟨_, -, rfl⟩ := Option.map_eq_some_iff.mp rightFound
  have leftFree := (Path.isPlain_iff.mp (plain left isLeft)).2.2.2
  have rightFree := (Path.isPlain_iff.mp (plain right isRight)).2.2.2
  exact different (Path.join_injective leftFree rightFree same)

/-- What is found are children of the directory, put in order. -/
theorem perm_of_find (found : find tree blacklist directory = .ok packages) :
    ∃ names, packages.Perm ((packagesIn tree directory (tree.children names)).filter fun input =>
      !blacklist.contains input.blacklistName) := by
  rw [find] at found
  split at found
  · simp at found
  · rename_i names _
    split at found
    · obtain rfl := Except.ok.inj found
      exact ⟨names, List.mergeSort_perm _ _⟩
    · simp at found

theorem isIn_of_find (found : find tree blacklist directory = .ok packages) {input : PackageInput}
    (member : input ∈ packages) : IsIn directory input := by
  obtain ⟨names, perm⟩ := perm_of_find found
  have listed := (List.mem_filter.mp (perm.mem_iff.mp member)).1
  exact isIn_of_mem_packagesIn (fun _ => Tree.isPlain_of_mem_children) listed

theorem nodup_paths_of_find (found : find tree blacklist directory = .ok packages) :
    (packages.map PackageInput.path).Nodup := by
  obtain ⟨names, perm⟩ := perm_of_find found
  have listed : ((packagesIn tree directory (tree.children names)).map PackageInput.path).Nodup :=
    nodup_paths_packagesIn (fun _ => Tree.isPlain_of_mem_children) (tree.nodup_children names)
  rw [(perm.map PackageInput.path).nodup_iff]
  exact listed.sublist (List.filter_sublist.map PackageInput.path)

namespace IsIn

variable {left right : PackageInput}

theorem fileStem?_eq (isIn : IsIn directory left) : Path.fileStem? left.path = some left.stem := by
  rw [PackageInput.stem, Path.fileStem?, isIn.path_eq, Path.fileName?_join isIn.plain]
  rfl

theorem nameStem_eq (isIn : IsIn directory left) : Path.nameStem left.name = left.stem :=
  isIn.named.nameStem_eq

theorem stem_free (isIn : IsIn directory left) : '/' ∉ left.stem :=
  fun slash => (Path.isPlain_iff.mp isIn.plain).2.2.2 (isIn.named.subset slash)

/-- Two packages have one stem exactly when their names agree up to what stands behind it. -/
theorem stem_eq_iff (leftIn : IsIn directory left) (rightIn : IsIn directory right) :
    left.stem = right.stem ↔ left.SharesStem right := by
  constructor
  · intro same
    exact ⟨left.stem, leftIn.named, same ▸ rightIn.named⟩
  · rintro ⟨stem, leftNamed, rightNamed⟩
    rw [← leftIn.nameStem_eq, ← rightIn.nameStem_eq, leftNamed.nameStem_eq, rightNamed.nameStem_eq]

end IsIn

end Discovery

/-! ### Places that are named by a stem -/

/-- Neither of two paths leads to a place below the other one. -/
def Path.Apart (left right : Text) : Prop :=
  ¬ Tree.goal left <+: Tree.goal right ∧ ¬ Tree.goal right <+: Tree.goal left

namespace Path

variable {base left right : Text}

theorem join_inj (leftFree : '/' ∉ left) (rightFree : '/' ∉ right) :
    join base left = join base right ↔ left = right :=
  ⟨join_injective leftFree rightFree, congrArg (join base)⟩

theorem apart_join (leftPlain : isPlain left = true) (rightPlain : isPlain right = true)
    (different : left ≠ right) : Apart (join base left) (join base right) := by
  have separate {one other : Text} (different : one ≠ other) (names : Names) :
      ¬ names ++ [one] <+: names ++ [other] := by
    rw [List.prefix_append_right_inj]
    simp [different]
  rw [Apart, Tree.goal_join leftPlain, Tree.goal_join rightPlain]
  exact ⟨separate different _, separate different.symm _⟩

end Path

theorem Layout.filePath_inj {left right : Text} (leftFree : '/' ∉ left) (rightFree : '/' ∉ right)
    (base : Text) :
    Path.join base (left ++ ".txt") = Path.join base (right ++ ".txt") ↔ left = right := by
  rw [Path.join_inj (by simp [leftFree]) (by simp [rightFree]), List.append_left_inj]

namespace Decompiler

variable {decompiler : Decompiler} {before after : Tree} {app other output : Text}

/-- A decompilation that succeeds leaves its sources in the directory that it names. -/
theorem decompile_eq_ok (decompiled : decompiler.decompile before app = (after, .ok output)) :
    output = decompiler.outputDirectory app ∧
      after.isDirectory (Path.join output "sources") = true := by
  rw [decompile] at decompiled
  split at decompiled
  · rename_i there
    obtain ⟨rfl, same⟩ := Prod.mk.inj decompiled
    obtain rfl := Except.ok.inj same
    exact ⟨rfl, there⟩
  · split at decompiled
    · simp at decompiled
    · split at decompiled
      · rename_i there
        obtain ⟨rfl, same⟩ := Prod.mk.inj decompiled
        obtain rfl := Except.ok.inj same
        exact ⟨rfl, there⟩
      · simp at decompiled

/-- An app file is given the tree that was decompiled from another one to the same directory. -/
theorem decompile_again (decompiled : decompiler.decompile before app = (after, .ok output))
    (same : decompiler.outputDirectory other = decompiler.outputDirectory app) :
    decompiler.decompile after other = (after, .ok output) := by
  obtain ⟨rfl, there⟩ := decompile_eq_ok decompiled
  rw [decompile, same, if_pos there]

end Decompiler

namespace Discovery

variable {tree : Tree} {blacklist : List Text} {directory : Text} {packages : List PackageInput}

/-- The packages that are found have different paths. Two of them have one stem exactly when their
names differ behind it only, and exactly then they share the paths of their artifacts and the
directory of their decompiled tree: one of them is given the tree of the other. Stems that differ
and are plain names keep the directories apart. -/
theorem stems_of_find (found : find tree blacklist directory = .ok packages) :
    (packages.map PackageInput.path).Nodup ∧
      ((packages.map PackageInput.stem).Nodup ↔
        packages.Pairwise fun left right => ¬ left.SharesStem right) ∧
      ∀ left ∈ packages, ∀ right ∈ packages,
        (left.stem = right.stem ↔ left.SharesStem right) ∧
        (∀ layout : Layout,
          (layout.resultPath left.stem = layout.resultPath right.stem ↔ left.SharesStem right) ∧
          (layout.logPath left.stem = layout.logPath right.stem ↔ left.SharesStem right) ∧
          (layout.unpackerDirectory left.stem = layout.unpackerDirectory right.stem ↔
            left.SharesStem right)) ∧
        (∀ decompiler : Decompiler,
          (decompiler.outputDirectory left.path = decompiler.outputDirectory right.path ↔
            left.SharesStem right) ∧
          ∀ before after output,
            decompiler.decompile before left.path = (after, .ok output) →
              left.SharesStem right →
                decompiler.decompile after right.path = (after, .ok output)) ∧
        (Path.isPlain left.stem = true → Path.isPlain right.stem = true →
          ¬ left.SharesStem right →
            (∀ layout : Layout, Path.Apart (layout.unpackerDirectory left.stem)
              (layout.unpackerDirectory right.stem)) ∧
            ∀ decompiler : Decompiler, Path.Apart (decompiler.outputDirectory left.path)
              (decompiler.outputDirectory right.path)) := by
  refine ⟨nodup_paths_of_find found, ?_, ?_⟩
  · rw [List.Nodup, List.pairwise_map]
    apply List.Pairwise.iff_of_mem
    intro left right isLeft isRight
    rw [← (isIn_of_find found isLeft).stem_eq_iff (isIn_of_find found isRight)]
  · intro left isLeft right isRight
    have leftIn := isIn_of_find found isLeft
    have rightIn := isIn_of_find found isRight
    have same := leftIn.stem_eq_iff rightIn
    have output (decompiler : Decompiler) {input : PackageInput} (isIn : IsIn directory input) :
        decompiler.outputDirectory input.path =
          Path.join decompiler.workDirectory input.stem := by
      rw [Decompiler.outputDirectory, isIn.fileStem?_eq]
      rfl
    have sameOutput (decompiler : Decompiler) :
        decompiler.outputDirectory left.path = decompiler.outputDirectory right.path ↔
          left.SharesStem right := by
      rw [output decompiler leftIn, output decompiler rightIn,
        Path.join_inj leftIn.stem_free rightIn.stem_free, same]
    refine ⟨same, fun layout => ⟨?_, ?_, ?_⟩, fun decompiler => ⟨sameOutput decompiler, ?_⟩, ?_⟩
    · rw [← same]
      exact Layout.filePath_inj leftIn.stem_free rightIn.stem_free _
    · rw [← same]
      exact Layout.filePath_inj leftIn.stem_free rightIn.stem_free _
    · rw [← same]
      exact Path.join_inj leftIn.stem_free rightIn.stem_free
    · intro before after output decompiled shares
      exact Decompiler.decompile_again decompiled ((sameOutput decompiler).mpr shares).symm
    · intro leftPlain rightPlain apart
      have different : left.stem ≠ right.stem := fun equal => apart (same.mp equal)
      refine ⟨fun layout => Path.apart_join leftPlain rightPlain different, fun decompiler => ?_⟩
      rw [output decompiler leftIn, output decompiler rightIn]
      exact Path.apart_join leftPlain rightPlain different

/-- Two app files in one directory, whose extensions are spelled in different letters. -/
def twoSpellings : Tree :=
  ({} : Tree).put ["in"] .directory
    |>.put ["in", "a.APK"] (.file (.text "x"))
    |>.put ["in", "a.apk"] (.file (.text "y"))

theorem find_twoSpellings :
    find twoSpellings [] "in" =
      .ok [{ path := "in/a.APK", kind := .app }, { path := "in/a.apk", kind := .app }] := by
  have resolved : twoSpellings.resolve "in" = .ok ["in".toList] := by decide +kernel
  have isDirectory : twoSpellings.lookup ["in".toList] = some .directory := by decide +kernel
  have listed : (packagesIn twoSpellings "in" (twoSpellings.children ["in".toList])).filter
      (fun input => !([] : List Text).contains input.blacklistName) =
        [{ path := "in/a.apk", kind := .app }, { path := "in/a.APK", kind := .app }] := by
    decide +kernel
  have order : Path.precedes "in/a.APK" "in/a.apk" = true := by decide +kernel
  simp only [find, resolved, isDirectory, if_true, listed]
  simpa [List.mergeSort, List.merge, List.MergeSort.Internal.splitInTwo] using order

/-- App files that differ in the letters of their extension share all their artifacts. -/
theorem stems_of_find_twoSpellings :
    ∃ left right, find twoSpellings [] "in" = .ok [left, right] ∧ left.path ≠ right.path ∧
      (∀ layout : Layout, layout.resultPath left.stem = layout.resultPath right.stem ∧
        layout.logPath left.stem = layout.logPath right.stem ∧
        layout.unpackerDirectory left.stem = layout.unpackerDirectory right.stem) ∧
      ∀ decompiler : Decompiler,
        decompiler.outputDirectory left.path = decompiler.outputDirectory right.path := by
  obtain ⟨-, -, shared⟩ := stems_of_find find_twoSpellings
  obtain ⟨same, layouts, decompilers, -⟩ := shared _ List.mem_cons_self _
    (List.mem_cons_of_mem _ List.mem_cons_self)
  have shares := same.mp (by decide)
  exact ⟨_, _, find_twoSpellings, by decide,
    fun layout => ⟨(layouts layout).1.mpr shares, (layouts layout).2.1.mpr shares,
      (layouts layout).2.2.mpr shares⟩,
    fun decompiler => (decompilers decompiler).1.mpr shares⟩

/-- The packages of a directory need not have different stems. -/
theorem not_nodup_stems_of_find :
    ∃ packages, find twoSpellings [] "in" = .ok packages ∧
      ¬ (packages.map PackageInput.stem).Nodup :=
  ⟨_, find_twoSpellings, by decide⟩

end Discovery

end Unpacking
