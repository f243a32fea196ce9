import Unpacking.Proofs.Discovery.Stem
import Unpacking.Proofs.Text.Items

/-!
Packages that a blacklist of result files leaves out. A line of the blacklist gives the name of an
app file, which is compared with the whole name of a package, while result files are named by its
stem. Main statement: `mem_find_recorded` tells which packages are left out by the line of their own
result file.
-/

namespace Unpacking

open Text

namespace PackageInput

/-- The name that a package has if no more of it than the usual extension is lost in its stem. -/
def usualName (input : PackageInput) : Text :=
  match input.kind with
  | .app => input.stem ++ ".apk"
  | .decompiled => input.stem

theorem blacklistName_of_usual {input : PackageInput} (usual : input.name = input.usualName) :
    input.blacklistName = input.stem ++ ".apk" := by
  rw [usualName] at usual
  rw [blacklistName, usual]
  cases input.kind <;> rfl

end PackageInput

namespace Discovery

variable {tree : Tree} {blacklist : List Text} {packages : List PackageInput}
  {directory path text : Text}

/-! ### Names on a blacklist -/

/-- A line of a text is the name of a file with some stem and an extension of three characters. -/
def IsRecorded (text stem : Text) : Prop :=
  ∃ line ∈ lines text, ∃ ending, ending.length = 3 ∧ trim line = stem ++ '.' :: ending

theorem blacklisted?_append {stem ending : Text} (three : ending.length = 3) (filled : stem ≠ []) :
    blacklisted? (stem ++ '.' :: ending) = some (stem ++ ".apk") := by
  obtain ⟨a, b, c, rfl⟩ := List.length_eq_three.mp three
  have reversed : (stem ++ ['.', a, b, c]).reverse = c :: b :: a :: '.' :: stem.reverse := by simp
  rw [blacklisted?, reversed]
  split
  · rename_i same
    simp_all
  · rename_i same
    simp only [List.cons.injEq] at same
    rw [← same.2.2.2.2, List.reverse_reverse]
  · rename_i others
    exact absurd rfl (others c b a stem.reverse)

theorem blacklisted?_eq_some_iff {line name : Text} :
    blacklisted? line = some name ↔
      ∃ stem ending, line = stem ++ '.' :: ending ∧ ending.length = 3 ∧ stem ≠ [] ∧
        name = stem ++ ".apk" := by
  constructor
  · intro found
    rw [blacklisted?] at found
    split at found
    · simp at found
    · rename_i c b a stem notEmpty reversed
      refine ⟨stem.reverse, [a, b, c], ?_, rfl, ?_, (Option.some.inj found).symm⟩
      · rw [← List.reverse_reverse line, reversed]
        simp
      · rw [ne_eq, List.reverse_eq_nil_iff]
        rintro rfl
        exact notEmpty rfl
    · simp at found
  · rintro ⟨stem, ending, rfl, three, filled, rfl⟩
    exact blacklisted?_append three filled

theorem mem_parseBlacklist {name : Text} :
    name ∈ parseBlacklist text ↔ ∃ stem ≠ [], IsRecorded text stem ∧ name = stem ++ ".apk" := by
  simp only [parseBlacklist, List.mem_filterMap, blacklisted?_eq_some_iff, IsRecorded]
  constructor
  · rintro ⟨line, isLine, stem, ending, whole, three, filled, rfl⟩
    exact ⟨stem, filled, ⟨line, isLine, ending, three, whole⟩, rfl⟩
  · rintro ⟨stem, filled, ⟨line, isLine, ending, three, whole⟩, rfl⟩
    exact ⟨line, isLine, stem, ending, whole, three, filled, rfl⟩

theorem append_apk_mem_parseBlacklist {stem : Text} (filled : stem ≠ []) :
    stem ++ ".apk" ∈ parseBlacklist text ↔ IsRecorded text stem := by
  rw [mem_parseBlacklist]
  constructor
  · rintro ⟨other, -, recorded, same⟩
    rwa [List.append_cancel_right same]
  · intro recorded
    exact ⟨stem, filled, recorded, rfl⟩

/-- The line of a result file stands for its stem, unless its first blanks are lost. -/
theorem isRecorded_of_mem {stem : Text} (filled : stem ≠ []) (flush : IsFlush stem)
    (listed : stem ++ ".txt" ∈ lines text) : IsRecorded text stem := by
  have start : IsFlush (stem ++ ".txt") := by
    intro c first
    rw [List.head?_append_of_ne_nil _ filled] at first
    exact flush c first
  have whole : trim (stem ++ ".txt") = stem ++ '.' :: "txt" := by
    rw [trim, trimStart_of_isFlush start, trimEnd_append_of_ne_nil (by decide)]
    rfl
  exact ⟨stem ++ ".txt", listed, "txt", rfl, whole⟩

/-! ### Packages that are left out -/

theorem resolve_of_find (found : find tree blacklist directory = .ok packages) :
    ∃ names, tree.resolve directory = .ok names ∧ tree.lookup names = some .directory := by
  rw [find] at found
  split at found
  · simp at found
  · rename_i names resolved
    split at found
    · rename_i isDirectory
      exact ⟨names, resolved, isDirectory⟩
    · simp at found

theorem exists_find {names : Names} (resolved : tree.resolve directory = .ok names)
    (isDirectory : tree.lookup names = some .directory) (blacklist : List Text) :
    ∃ packages, find tree blacklist directory = .ok packages ∧
      ∀ input, input ∈ packages ↔
        input ∈ packagesIn tree directory (tree.children names) ∧
          input.blacklistName ∉ blacklist := by
  rw [find, resolved]
  simp only [isDirectory, if_true]
  refine ⟨_, rfl, fun input => ?_⟩
  simp [List.mem_mergeSort]

/-- A blacklist takes away the packages that it names, and no others. -/
theorem exists_find_blacklist (found : find tree [] directory = .ok packages)
    (blacklist : List Text) :
    ∃ remaining, find tree blacklist directory = .ok remaining ∧
      ∀ input, input ∈ remaining ↔ input ∈ packages ∧ input.blacklistName ∉ blacklist := by
  obtain ⟨names, resolved, isDirectory⟩ := resolve_of_find found
  obtain ⟨all, foundAll, inAll⟩ := exists_find resolved isDirectory []
  obtain ⟨remaining, foundAgain, inRemaining⟩ := exists_find resolved isDirectory blacklist
  obtain rfl := Except.ok.inj (found.symm.trans foundAll)
  refine ⟨remaining, foundAgain, fun input => ?_⟩
  simp [inAll, inRemaining]

theorem IsIn.stem_ne_nil {input : PackageInput} (isIn : IsIn directory input) :
    input.stem ≠ [] := by
  have filled := (Path.isPlain_iff.mp isIn.plain).1
  have named := isIn.named
  generalize input.kind = kind, input.name = name at named filled
  cases named with
  | app extension spelled stemFilled => exact stemFilled
  | bare free => exact filled
  | dotted extension free stemFilled => exact stemFilled

/-- An app file whose extension has another letter case is on no blacklist. -/
theorem IsIn.not_mem_parseBlacklist {input : PackageInput} (isIn : IsIn directory input)
    (isApp : input.kind = .app) (unusual : input.name ≠ input.usualName) :
    input.blacklistName ∉ parseBlacklist text := by
  intro listed
  obtain ⟨stem, filled, -, same⟩ := mem_parseBlacklist.mp listed
  have name : input.name = stem ++ ".apk" := by
    rw [← same, PackageInput.blacklistName, isApp]
  have stemEq : stem = input.stem := by
    rw [← isIn.nameStem_eq, name]
    exact (PackageInput.IsNamedBy.app "apk" (by decide) filled).nameStem_eq.symm
  apply unusual
  rw [PackageInput.usualName, isApp, ← stemEq, name]

/-- A package with the usual name for its stem is left out by the line of its own result file. Of
the others, an app file is never left out, and a directory only if a line gives its whole name with
an extension of three characters. -/
theorem mem_find_recorded (found : find tree [] directory = .ok packages)
    (read : tree.readText path = .ok text) :
    ∃ blacklist remaining, loadBlacklist tree path = .ok blacklist ∧
      find tree blacklist directory = .ok remaining ∧
      ∀ input ∈ packages, trimStart input.stem = input.stem →
        input.stem ++ ".txt" ∈ lines text →
        (input.name = input.usualName → input ∉ remaining) ∧
        (input.name ≠ input.usualName →
          (input ∉ remaining ↔ input.kind = .decompiled ∧ IsRecorded text input.name)) := by
  obtain ⟨remaining, again, leftOut⟩ := exists_find_blacklist found (parseBlacklist text)
  have loaded : loadBlacklist tree path = .ok (parseBlacklist text) := by rw [loadBlacklist, read]
  refine ⟨parseBlacklist text, remaining, loaded, again, ?_⟩
  intro input member trimmed listed
  have flush : IsFlush input.stem := trimmed ▸ isFlush_trimStart input.stem
  have isIn := isIn_of_find found member
  have out : input ∉ remaining ↔ input.blacklistName ∈ parseBlacklist text := by
    simp [leftOut, member]
  rw [out]
  constructor
  · intro usual
    rw [PackageInput.blacklistName_of_usual usual, append_apk_mem_parseBlacklist isIn.stem_ne_nil]
    exact isRecorded_of_mem isIn.stem_ne_nil flush listed
  · intro unusual
    cases kind : input.kind with
    | app => simp [isIn.not_mem_parseBlacklist kind unusual]
    | decompiled =>
      have name : input.blacklistName = input.name ++ ".apk" := by
        rw [PackageInput.blacklistName, kind]
      rw [name, append_apk_mem_parseBlacklist (Path.isPlain_iff.mp isIn.plain).1]
      simp

/-- Two app files and a decompiled tree, and a list of their result files. -/
def resumed : Tree :=
  ({} : Tree).put ["in"] .directory
    |>.put ["in", "a.APK"] (.file (.text "x"))
    |>.put ["in", "b.apk"] (.file (.text "x"))
    |>.put ["in", "com.app"] .directory
    |>.put ["in", "com.app", "sources"] .directory
    |>.put ["done.txt"] (.file (.text "a.txt\n com.txt\r\ncom.txt\nb.txt"))

theorem exists_find_resumed (blacklist : List Text) :
    ∃ packages, find resumed blacklist "in" = .ok packages ∧
      ∀ input, input ∈ packages ↔
        input ∈ packagesIn resumed "in" (resumed.children ["in"]) ∧
          input.blacklistName ∉ blacklist :=
  exists_find (by decide +kernel) (by decide +kernel) blacklist

theorem readText_resumed :
    resumed.readText "done.txt" = .ok "a.txt\n com.txt\r\ncom.txt\nb.txt" := by
  decide +kernel

/-- Of the three packages only the app file with an extension in small letters is left out. -/
theorem mem_find_recorded_resumed :
    ∃ packages blacklist remaining, find resumed [] "in" = .ok packages ∧
      loadBlacklist resumed "done.txt" = .ok blacklist ∧
      find resumed blacklist "in" = .ok remaining ∧
      ⟨"in/b.apk", .app⟩ ∈ packages ∧ ⟨"in/b.apk", .app⟩ ∉ remaining ∧
      ⟨"in/a.APK", .app⟩ ∈ packages ∧ ⟨"in/a.APK", .app⟩ ∈ remaining ∧
      ⟨"in/com.app", .decompiled⟩ ∈ packages ∧ ⟨"in/com.app", .decompiled⟩ ∈ remaining := by
  obtain ⟨packages, found, listed⟩ := exists_find_resumed []
  obtain ⟨blacklist, remaining, loaded, again, out⟩ := mem_find_recorded found readText_resumed
  have small : (⟨"in/b.apk", .app⟩ : PackageInput) ∈ packages :=
    (listed _).mpr ⟨by decide +kernel, List.not_mem_nil⟩
  have capital : (⟨"in/a.APK", .app⟩ : PackageInput) ∈ packages :=
    (listed _).mpr ⟨by decide +kernel, List.not_mem_nil⟩
  have dotted : (⟨"in/com.app", .decompiled⟩ : PackageInput) ∈ packages :=
    (listed _).mpr ⟨by decide +kernel, List.not_mem_nil⟩
  refine ⟨packages, blacklist, remaining, found, loaded, again, small, ?_, capital, ?_, dotted, ?_⟩
  · exact (out _ small (by decide +kernel) (by decide +kernel)).1 (by decide +kernel)
  · apply not_not.mp
    rw [(out _ capital (by decide +kernel) (by decide +kernel)).2 (by decide +kernel)]
    simp
  · apply not_not.mp
    rw [(out _ dotted (by decide +kernel) (by decide +kernel)).2 (by decide +kernel),
      ← append_apk_mem_parseBlacklist (by decide)]
    decide +kernel

/-- The line of its result file need not keep a package from being found again. -/
theorem mem_find_again :
    ∃ text packages blacklist remaining, resumed.readText "done.txt" = .ok text ∧
      find resumed [] "in" = .ok packages ∧ loadBlacklist resumed "done.txt" = .ok blacklist ∧
      find resumed blacklist "in" = .ok remaining ∧
      ∀ input ∈ [⟨"in/a.APK", .app⟩, ⟨"in/com.app", .decompiled⟩],
        input ∈ packages ∧ trim input.stem = input.stem ∧ '\n' ∉ input.stem ∧
          input.stem ++ ".txt" ∈ lines text ∧ input ∈ remaining := by
  obtain ⟨packages, found, listed⟩ := exists_find_resumed []
  have loaded : loadBlacklist resumed "done.txt" =
      .ok ["a.apk", "com.apk", "com.apk", "b.apk"] := by
    rw [loadBlacklist, readText_resumed]
    decide +kernel
  obtain ⟨remaining, again, listedAgain⟩ := exists_find_resumed _
  refine ⟨_, packages, _, remaining, readText_resumed, found, loaded, again, ?_⟩
  simp only [listed, listedAgain]
  decide +kernel

end Discovery

end Unpacking
