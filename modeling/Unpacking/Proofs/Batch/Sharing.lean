import Unpacking.Proofs.Batch.Artifacts
import Unpacking.Proofs.File.Work

/-!
A package that is processed while others are. It has places of its own in the directory of the run,
and the only place that others make, too, is the directory of unpackers. Main statement:
`endsAlike_process` says that it sees and writes what it would see and write alone.
-/

namespace Unpacking.Batch

open Text Unpacking.Tree Layout

variable {layout : Layout} {stem : Text} {shared changed alone : Tree} {place : Names}

/-! ### What a package sees and what it leaves alone -/

/-- What stands at a place may only change from nothing to a directory. -/
def Grows (before after : Option Entry) : Prop :=
  after = before ∨ before = none ∧ after = some .directory

theorem Grows.trans {first second third : Option Entry} (left : Grows first second)
    (right : Grows second third) : Grows first third := by
  rcases left with rfl | ⟨absent, made⟩
  · exact right
  · rcases right with same | ⟨absentAgain, -⟩
    · exact .inr ⟨absent, same.trans made⟩
    · simp [made] at absentAgain

/-- A shared tree shows a package what it would see in a tree of its own. -/
structure Sees (layout : Layout) (stem : Text) (shared alone : Tree) : Prop where
  stands : layout.Stands shared
  standsAlone : layout.Stands alone
  own : ∀ place, Owns stem place →
    shared.lookup (layout.base ++ place) = alone.lookup (layout.base ++ place)
  common : Grows (alone.lookup layout.unpackersPlace) (shared.lookup layout.unpackersPlace)

/-- What a package may count on while others change the tree. -/
structure Rely (layout : Layout) (stem : Text) (before after : Tree) : Prop where
  keeps : before.KeepsDirectories after
  own : ∀ place, Owns stem place →
    after.lookup (layout.base ++ place) = before.lookup (layout.base ++ place)
  common : Grows (before.lookup layout.unpackersPlace) (after.lookup layout.unpackersPlace)

/-- What an access of a package leaves as it is, in the shared tree and in a tree of its own. -/
structure Guarantee (layout : Layout) (stem : Text) (before after : Tree × Tree) : Prop where
  keeps : before.1.KeepsDirectories after.1
  keepsAlone : before.2.KeepsDirectories after.2
  others : ∀ place, IsArtifact place → ¬ Owns stem place → place ≠ ["unpackers".toList] →
    after.1.lookup (layout.base ++ place) = before.1.lookup (layout.base ++ place)
  common : Grows (before.1.lookup layout.unpackersPlace) (after.1.lookup layout.unpackersPlace)
  made : after.1.lookup layout.unpackersPlace = before.1.lookup layout.unpackersPlace ∨
    after.2.lookup layout.unpackersPlace = some .directory

theorem Rely.refl (tree : Tree) : Rely layout stem tree tree :=
  ⟨.refl tree, fun _ _ => rfl, .inl rfl⟩

theorem Rely.trans {first second third : Tree} (left : Rely layout stem first second)
    (right : Rely layout stem second third) : Rely layout stem first third where
  keeps := left.keeps.trans right.keeps
  own place owns := (right.own place owns).trans (left.own place owns)
  common := left.common.trans right.common

theorem Guarantee.refl (state : Tree × Tree) : Guarantee layout stem state state :=
  ⟨.refl _, .refl _, fun _ _ _ _ => rfl, .inl rfl, .inl rfl⟩

theorem Guarantee.rely {other : Text} {before after : Tree × Tree}
    (kept : Guarantee layout stem before after) (different : stem ≠ other) :
    Rely layout other before.1 after.1 where
  keeps := kept.keeps
  common := kept.common
  own place owns := by
    apply kept.others place owns.isArtifact
    · exact fun mine => different (eq_of_owns mine owns)
    · rintro rfl
      exact not_owns_unpackers owns

theorem Sees.refl (stands : layout.Stands alone) : Sees layout stem alone alone :=
  ⟨stands, stands, fun _ _ => rfl, .inl rfl⟩

theorem Sees.rely (sees : Sees layout stem shared alone) (step : Rely layout stem shared changed) :
    Sees layout stem changed alone where
  stands := sees.stands.keep step.keeps
  standsAlone := sees.standsAlone
  own place owns := (step.own place owns).trans (sees.own place owns)
  common := sees.common.trans step.common

theorem append_ne_unpackersPlace (owns : Owns stem place) :
    layout.base ++ place ≠ layout.unpackersPlace := by
  intro same
  rw [List.append_cancel_left same] at owns
  exact not_owns_unpackers owns

/-- The same entry at a place of the package's own keeps the two trees alike. -/
theorem Sees.put (sees : Sees layout stem shared alone) (owns : Owns stem place) (entry : Entry)
    (free : alone.lookup (layout.base ++ place) ≠ some .directory) :
    Sees layout stem (shared.put (layout.base ++ place) entry)
        (alone.put (layout.base ++ place) entry) ∧
      Guarantee layout stem (shared, alone) (shared.put (layout.base ++ place) entry,
        alone.put (layout.base ++ place) entry) := by
  have proper : layout.base ++ place ≠ [] := by
    intro empty
    rw [empty] at free
    exact free rfl
  have keepsAlone := keepsDirectories_put entry free
  have keeps : shared.KeepsDirectories (shared.put (layout.base ++ place) entry) :=
    keepsDirectories_put entry (by rw [sees.own place owns]; exact free)
  have apart : layout.unpackersPlace ≠ layout.base ++ place := (append_ne_unpackersPlace owns).symm
  constructor
  · refine ⟨sees.stands.keep keeps, sees.standsAlone.keep keepsAlone, fun other otherOwns => ?_, ?_⟩
    · by_cases same : layout.base ++ other = layout.base ++ place
      · rw [same, lookup_put_same shared entry proper, lookup_put_same alone entry proper]
      · rw [lookup_put_other shared entry same, lookup_put_other alone entry same]
        exact sees.own other otherOwns
    · rw [lookup_put_other shared entry apart, lookup_put_other alone entry apart]
      exact sees.common
  · refine ⟨keeps, keepsAlone, fun other _ notOwns _ => ?_, .inl ?_, .inl ?_⟩
    · apply lookup_put_other
      intro same
      rw [List.append_cancel_left same] at notOwns
      exact notOwns owns
    · exact lookup_put_other shared entry apart
    · exact lookup_put_other shared entry apart

/-! ### Single accesses -/

/-- A package that works among others. -/
abbrev Follows {α : Type} (layout : Layout) (stem : Text) (after : α → Tree → Tree → Prop) :
    Work α → Tree → Tree → Prop :=
  Work.Tracks (Rely layout stem) (Guarantee layout stem) after

/-- A package writes a file at a place of its own. -/
theorem follows_writeText {disk : Disk} {path text : Text}
    {after : Except RunError Unit → Tree → Tree → Prop}
    (sees : Sees layout stem shared alone) (filled : path ≠ []) (owns : Owns stem place)
    (leads : goal path = layout.base ++ place)
    (opens : ∀ {shared}, Sees layout stem shared alone → shared.IsOpen path)
    (onward : ∀ result {shared changed}, Sees layout stem shared changed →
      alone.KeepsDirectories changed → after result shared changed) :
    Follows layout stem after (writeText disk path text) shared alone := by
  intro changed step
  have sees := sees.rely step
  have same := sees.own place owns
  rw [write_of_isOpen filled (opens sees), write_of_isOpen filled (opens (.refl sees.standsAlone)),
    leads, same]
  by_cases fails : disk path = some .refused ∨
      alone.lookup (layout.base ++ place) = some .directory
  · rw [if_pos fails, if_pos fails]
    exact ⟨rfl, .refl _, fun later step => onward _ (sees.rely step) (.refl alone)⟩
  · rw [if_neg fails, if_neg fails]
    obtain ⟨seesOn, kept⟩ := sees.put owns (.file (written disk path text))
      fun taken => fails (.inr taken)
    exact ⟨rfl, kept, fun later step => onward _ (seesOn.rely step) kept.keepsAlone⟩

theorem advance_eq {tree : Tree} {names : Names} (part : Text)
    (stands : tree.lookup names = some .directory) :
    advance names part tree =
      match tree.lookup (next names part) with
      | none => (tree.put (next names part) .directory, .ok (next names part))
      | some .directory => (tree, .ok (next names part))
      | some _ => (tree, .error .exists) := by
  rw [advance, enterOrCreate, enter_eq_ok_iff.mpr ⟨stands, rfl⟩]
  cases found : tree.lookup (next names part) with
  | none => simp [found]
  | some entry => cases entry <;> simp [found]

/-! ### The directory of an unpacker -/

theorem Sees.lookup_unpackersPlace (sees : Sees layout stem shared alone)
    (made : alone.lookup layout.unpackersPlace = some .directory) :
    shared.lookup layout.unpackersPlace = some .directory := by
  rcases sees.common with same | ⟨absent, -⟩
  · rw [same, made]
  · simp [made] at absent

/-- Directories that are there already are passed without a change. -/
theorem follows_makeAlong_append {names : Names} {left right : List Text}
    {after : Except FileError Unit → Tree → Tree → Prop} (sees : Sees layout stem shared alone)
    (paved : ∀ tree, layout.Stands tree →
      tree.Passes names left ∧ tree.lookup (left.foldl next names) = some .directory)
    (onward : ∀ {shared}, Sees layout stem shared alone →
      Follows layout stem after (.makeAlong (left.foldl next names) right) shared alone) :
    Follows layout stem after (.makeAlong names (left ++ right)) shared alone := by
  induction left generalizing names shared with
  | nil => exact onward sees
  | cons part rest inductionHypothesis =>
    intro changed step
    have sees := sees.rely step
    have passed (tree : Tree) (stands : layout.Stands tree) :
        advance names part tree = (tree, .ok (next names part)) := by
      obtain ⟨⟨here, passes⟩, last⟩ := paved tree stands
      rw [advance_eq part here, passes.lookup_head last]
    rw [passed changed sees.stands, passed alone sees.standsAlone]
    have pavedRest (tree : Tree) (stands : layout.Stands tree) :
        tree.Passes (next names part) rest ∧
          tree.lookup (rest.foldl next (next names part)) = some .directory :=
      ⟨(paved tree stands).1.2, (paved tree stands).2⟩
    exact ⟨rfl, .refl _, inductionHypothesis sees pavedRest onward⟩

/-- A tree has the directory of the package's own unpacker. -/
def HasUnpackerDirectory (layout : Layout) (stem : Text) (tree : Tree) : Prop :=
  tree.lookup layout.unpackersPlace = some .directory ∧
    tree.lookup (layout.base ++ ["unpackers".toList, stem]) = some .directory

theorem owns_unpackerDirectory (stem : Text) : Owns stem ["unpackers".toList, stem] :=
  .inr (.inr (List.prefix_refl _))

/-- The directory of the package's own unpacker is made in the directory of unpackers. -/
theorem follows_makeAlong_own {after : Except FileError Unit → Tree → Tree → Prop}
    (plain : Path.isPlain stem = true) (sees : Sees layout stem shared alone)
    (made : alone.lookup layout.unpackersPlace = some .directory)
    (onward : ∀ result {shared changed}, Sees layout stem shared changed →
      (result = .ok () → HasUnpackerDirectory layout stem changed) → after result shared changed) :
    Follows layout stem after (.makeAlong layout.unpackersPlace [stem]) shared alone := by
  intro changed step
  have sees := sees.rely step
  have target : next layout.unpackersPlace stem = layout.base ++ ["unpackers".toList, stem] := by
    rw [next_of_isPlain plain, unpackersPlace, List.append_assoc]
    rfl
  have owns := owns_unpackerDirectory stem
  rw [advance_eq stem (sees.lookup_unpackersPlace made), advance_eq stem made, target,
    sees.own _ owns]
  cases found : alone.lookup (layout.base ++ ["unpackers".toList, stem]) with
  | none =>
    obtain ⟨seesOn, kept⟩ := sees.put owns .directory (by rw [found]; simp)
    refine ⟨rfl, kept, fun later step => onward (.ok ()) (seesOn.rely step) fun _ => ⟨?_, ?_⟩⟩
    · exact kept.keepsAlone _ made
    · exact lookup_put_same alone _ (by simp)
  | some entry =>
    cases entry with
    | directory =>
      exact ⟨rfl, .refl _, fun later step =>
        onward (.ok ()) (sees.rely step) fun _ => ⟨made, found⟩⟩
    | file content =>
      exact ⟨rfl, .refl _, fun later step => onward (.error .exists) (sees.rely step) (by simp)⟩
    | tool script =>
      exact ⟨rfl, .refl _, fun later step => onward (.error .exists) (sees.rely step) (by simp)⟩

/-- The directory of unpackers is made in the package's own tree, and in the shared one unless it is
there. -/
theorem Sees.putUnpackers (sees : Sees layout stem shared alone)
    (absentAlone : alone.lookup layout.unpackersPlace = none)
    (becomes : shared.lookup layout.unpackersPlace = none ∧
        changed = shared.put layout.unpackersPlace .directory ∨
      shared.lookup layout.unpackersPlace = some .directory ∧ changed = shared) :
    Sees layout stem changed (alone.put layout.unpackersPlace .directory) ∧
      Guarantee layout stem (shared, alone)
        (changed, alone.put layout.unpackersPlace .directory) := by
  have proper : layout.unpackersPlace ≠ [] := by simp [unpackersPlace]
  have madeAlone := lookup_put_same alone .directory proper
  have keepsAlone : alone.KeepsDirectories (alone.put layout.unpackersPlace .directory) :=
    keepsDirectories_put .directory (by rw [absentAlone]; simp)
  have own (place : Names) (owns : Owns stem place) :
      (alone.put layout.unpackersPlace .directory).lookup (layout.base ++ place) =
        alone.lookup (layout.base ++ place) :=
    lookup_put_other alone .directory (append_ne_unpackersPlace owns)
  rcases becomes with ⟨absent, rfl⟩ | ⟨made, rfl⟩
  · have madeShared := lookup_put_same shared .directory proper
    have keeps : shared.KeepsDirectories (shared.put layout.unpackersPlace .directory) :=
      keepsDirectories_put .directory (by rw [absent]; simp)
    refine ⟨⟨sees.stands.keep keeps, sees.standsAlone.keep keepsAlone, fun place owns => ?_,
      .inl (madeShared.trans madeAlone.symm)⟩, ⟨keeps, keepsAlone, fun place _ _ notCommon => ?_,
      .inr ⟨absent, madeShared⟩, .inr madeAlone⟩⟩
    · rw [own place owns, lookup_put_other shared _ (append_ne_unpackersPlace owns)]
      exact sees.own place owns
    · apply lookup_put_other
      exact fun same => notCommon (List.append_cancel_left same)
  · refine ⟨⟨sees.stands, sees.standsAlone.keep keepsAlone, fun place owns => ?_,
      .inl (made.trans madeAlone.symm)⟩,
      ⟨.refl _, keepsAlone, fun _ _ _ _ => rfl, .inl rfl, .inl rfl⟩⟩
    rw [own place owns]
    exact sees.own place owns

/-- The directory of unpackers is made by the package that comes first, and all go on from it. -/
theorem follows_makeAlong_base {after : Except FileError Unit → Tree → Tree → Prop}
    (plain : Path.isPlain stem = true) (sees : Sees layout stem shared alone)
    (onward : ∀ result {shared changed}, Sees layout stem shared changed →
      (result = .ok () → HasUnpackerDirectory layout stem changed) → after result shared changed) :
    Follows layout stem after (.makeAlong layout.base ["unpackers".toList, stem]) shared alone := by
  intro changed step
  have sees := sees.rely step
  have target : next layout.base "unpackers" = layout.unpackersPlace :=
    next_of_isPlain isPlain_unpackers layout.base
  rw [advance_eq _ sees.stands.root, advance_eq _ sees.standsAlone.root, target]
  cases found : alone.lookup layout.unpackersPlace with
  | none =>
    have madeAlone : (alone.put layout.unpackersPlace .directory).lookup layout.unpackersPlace =
        some .directory := lookup_put_same alone _ (by simp [unpackersPlace])
    rcases sees.common with same | ⟨-, made⟩
    · -- Nobody has made it yet, so it is made in both trees.
      have absent := same.trans found
      rw [absent]
      have seesOn := sees.putUnpackers found (.inl ⟨absent, rfl⟩)
      exact ⟨rfl, seesOn.2, follows_makeAlong_own plain seesOn.1 madeAlone onward⟩
    · -- Another package has made it.
      rw [made]
      have seesOn := sees.putUnpackers found (.inr ⟨made, rfl⟩)
      exact ⟨rfl, seesOn.2, follows_makeAlong_own plain seesOn.1 madeAlone onward⟩
  | some entry =>
    have same : changed.lookup layout.unpackersPlace = some entry := by
      rcases sees.common with same | ⟨absent, -⟩
      · rw [same, found]
      · simp [found] at absent
    rw [same]
    cases entry with
    | directory => exact ⟨rfl, .refl _, follows_makeAlong_own plain sees found onward⟩
    | file content =>
      exact ⟨rfl, .refl _, fun later step => onward (.error .exists) (sees.rely step) (by simp)⟩
    | tool script =>
      exact ⟨rfl, .refl _, fun later step => onward (.error .exists) (sees.rely step) (by simp)⟩

/-- The directory of an unpacker is made in two steps behind the path of the run. -/
theorem exists_makeAlong (layout : Layout) (free : '/' ∉ stem) :
    ∃ names parts, parts.foldl next names = layout.base ∧
      (∀ tree : Tree, layout.Stands tree → tree.Passes names parts) ∧
      Work.makeDirectories (layout.unpackerDirectory stem) =
        .makeAlong names (parts ++ ["unpackers".toList, stem]) := by
  obtain ⟨parts, leads, opens, begun⟩ := start_join isPlain_unpackers layout.root
  have along := Path.start_join_join isPlain_unpackers free layout.root
  have filled : layout.unpackerDirectory stem ≠ [] := by
    intro empty
    rw [unpackerDirectory, Path.join_of_free free, List.append_eq_nil_iff] at empty
    rcases Path.lead_cases layout.unpackersDirectory with ⟨-, nowhere⟩ | ⟨front, closed, -⟩
    · exact join_ne_nil isPlain_unpackers layout.root nowhere
    · simp [closed] at empty
  refine ⟨(start layout.root).1, parts, leads.symm, fun tree stands => ?_, ?_⟩
  · exact (opens tree stands.root).mp stands.isOpen
  · rw [Work.makeDirectories, if_neg (by simp [filled]), unpackerDirectory, unpackersDirectory,
      along, begun, List.append_assoc]
    rfl

theorem follows_makeDirectories {after : Except FileError Unit → Tree → Tree → Prop}
    (plain : Path.isPlain stem = true) (sees : Sees layout stem shared alone)
    (onward : ∀ result {shared changed}, Sees layout stem shared changed →
      (result = .ok () → HasUnpackerDirectory layout stem changed) → after result shared changed) :
    Follows layout stem after (.makeDirectories (layout.unpackerDirectory stem)) shared alone := by
  obtain ⟨names, parts, leads, passes, along⟩ :=
    exists_makeAlong layout (Path.isPlain_iff.mp plain).2.2.2
  rw [along]
  apply follows_makeAlong_append sees
  · intro tree stands
    rw [leads]
    exact ⟨passes tree stands, stands.root⟩
  · intro shared sees
    rw [leads]
    exact follows_makeAlong_base plain sees onward

/-! ### A whole package -/

theorem follows_bind {α β : Type} {after : β → Tree → Tree → Prop} {work : Work α}
    {rest : α → Work β}
    (first : Follows layout stem
      (fun value shared alone => Follows layout stem after (rest value) shared alone) work shared
      alone) :
    Follows layout stem after (work >>= rest) shared alone :=
  Work.Tracks.bind .refl first

/-- The two trees are alike when the work is over. -/
abbrev EndsAlike {α : Type} (layout : Layout) (stem : Text) (work : Work α) (shared alone : Tree) :
    Prop :=
  Follows layout stem (fun _ => Sees layout stem) work shared alone

theorem endsAlike_pure {α : Type} (value : α) (sees : Sees layout stem shared alone) :
    EndsAlike layout stem (pure value) shared alone :=
  fun _ step => sees.rely step

theorem endsAlike_bind {α β : Type} {work : Work α} {rest : α → Work β}
    (first : EndsAlike layout stem work shared alone)
    (second : ∀ value {shared alone}, Sees layout stem shared alone →
      EndsAlike layout stem (rest value) shared alone) :
    EndsAlike layout stem (work >>= rest) shared alone :=
  follows_bind (first.imp fun value _ _ => second value)

variable {disk : Disk}

theorem endsAlike_writeResult (free : '/' ∉ stem) (sees : Sees layout stem shared alone)
    (text : Text) :
    EndsAlike layout stem (writeText disk (layout.resultPath stem) text) shared alone :=
  follows_writeText sees (join_ne_nil (isPlain_textFile free) _) (.inl rfl) (goal_resultPath free)
    (fun sees => sees.stands.isOpen_resultPath free) fun _ _ _ seesOn _ => seesOn

theorem endsAlike_writeLog {record : Record} (sees : Sees layout stem shared alone)
    (free : '/' ∉ stem) (log : Log) (named : record.input.stem = stem) :
    EndsAlike layout stem (writeLog disk layout log record) shared alone := by
  subst named
  have written : EndsAlike layout record.input.stem
      (writeText disk (layout.logPath record.input.stem) log.contents) shared alone :=
    follows_writeText sees (join_ne_nil (isPlain_textFile free) _) (.inr (.inl rfl))
      (goal_logPath free) (fun sees => sees.stands.isOpen_logPath free) fun _ _ _ seesOn _ => seesOn
  exact endsAlike_bind written fun _ _ _ sees => endsAlike_pure record sees

theorem endsAlike_writeUnpacker {unpacker : Unpacker} (plain : Path.isPlain stem = true)
    (free : '/' ∉ unpacker.className) (sees : Sees layout stem shared alone) :
    EndsAlike layout stem (writeUnpacker disk layout stem unpacker) shared alone := by
  have namePlain : Path.isPlain (unpacker.className ++ ".java") = true :=
    isPlain_append free (by decide) (by decide)
  have owns : Owns stem ["unpackers".toList, stem, unpacker.className ++ ".java"] :=
    .inr (.inr ⟨[unpacker.className ++ ".java"], rfl⟩)
  apply follows_bind
  apply follows_makeDirectories plain sees
  intro result shared changed sees made
  cases result with
  | error error => exact endsAlike_pure _ sees
  | ok _ =>
    obtain ⟨unpackers, own⟩ := made rfl
    apply follows_bind
    apply follows_writeText sees (join_ne_nil namePlain _) owns (goal_unpackerPath plain namePlain)
    · intro shared sees
      apply sees.stands.isOpen_unpackerPath plain namePlain (sees.lookup_unpackersPlace unpackers)
      rw [sees.own _ (owns_unpackerDirectory stem), own]
    · intro result shared changed sees _
      cases result with
      | error error => exact endsAlike_pure _ sees
      | ok _ => exact endsAlike_pure _ sees

theorem endsAlike_writeArtifacts {settings : Settings} {report : Analysis.Report}
    (plain : Path.isPlain stem = true)
    (free : ∀ unpacker, report.unpacker = some unpacker → '/' ∉ unpacker.className)
    (sees : Sees layout stem shared alone) :
    EndsAlike layout stem (writeArtifacts disk settings layout stem report) shared alone := by
  have stemFree := (Path.isPlain_iff.mp plain).2.2.2
  apply endsAlike_bind (endsAlike_writeResult stemFree sees _)
  intro result shared alone sees
  cases result with
  | error error => exact endsAlike_pure _ sees
  | ok _ =>
    simp only
    split
    · exact endsAlike_pure _ sees
    · rename_i unpacker isMade
      split
      · apply endsAlike_bind (endsAlike_writeUnpacker plain (free unpacker isMade) sees)
        intro result shared alone sees
        cases result with
        | error error => exact endsAlike_pure _ sees
        | ok path => exact endsAlike_pure _ sees
      · exact endsAlike_pure _ sees

theorem endsAlike_keep {settings : Settings} {job : Job} {outcome : PackageOutcome} {log : Log}
    (plain : Path.isPlain job.input.stem = true)
    (free : ∀ report unpacker, outcome = .completed report → report.unpacker = some unpacker →
      '/' ∉ unpacker.className)
    (sees : Sees layout job.input.stem shared alone) :
    EndsAlike layout job.input.stem (keep settings layout job outcome log) shared alone := by
  have stemFree := (Path.isPlain_iff.mp plain).2.2.2
  cases outcome with
  | failed message => exact endsAlike_writeLog sees stemFree log rfl
  | timedOut => exact endsAlike_writeLog sees stemFree log rfl
  | completed report =>
    apply endsAlike_bind
      (endsAlike_writeArtifacts plain (fun unpacker => free report unpacker rfl) sees)
    intro result shared alone sees
    cases result with
    | ok path => exact endsAlike_writeLog sees stemFree log rfl
    | error error => exact endsAlike_writeLog sees stemFree _ rfl

/-- A package about which the same comes whatever the tree is like, without a change to the
artifacts of the run. Its analysis may write elsewhere, but no directory goes away. -/
structure Job.IsSteady (layout : Layout) (job : Job) : Prop where
  answer : ∀ before after, (job.load before).2 = (job.load after).2
  keeps : ∀ tree : Tree, tree.KeepsDirectories (job.load tree).1
  artifacts : ∀ (tree : Tree) place, IsArtifact place →
    (job.load tree).1.lookup (layout.base ++ place) = tree.lookup (layout.base ++ place)

/-- A completed analysis was a run over some facts. -/
theorem exists_run_of_analyse {toolkit : Toolkit} {settings : Settings} {path : Text}
    {arrival : Arrival} {report : Analysis.Report}
    (completed : (analyse toolkit settings path arrival).1 = .completed report) :
    ∃ facts, (Analysis.run toolkit settings false path facts).result = .ok report := by
  cases arrival with
  | brokenOff => simp [analyse] at completed
  | late => simp [analyse] at completed
  | loaded facts =>
    refine ⟨facts, ?_⟩
    simp only [analyse] at completed
    split at completed
    · rename_i given
      rw [given, PackageOutcome.completed.inj completed]
    all_goals simp at completed

theorem slash_not_mem_className {toolkit : Toolkit} {settings : Settings} {path : Text}
    {arrival : Arrival} (free : '/' ∉ settings.synthesis.classPrefix) {report : Analysis.Report}
    {unpacker : Unpacker}
    (completed : (analyse toolkit settings path arrival).1 = .completed report)
    (isMade : report.unpacker = some unpacker) : '/' ∉ unpacker.className := by
  obtain ⟨facts, analysed⟩ := exists_run_of_analyse completed
  rw [Analysis.className_of_run analysed isMade]
  exact Unpacker.slash_not_mem_classNameFor free path

theorem endsAlike_process {settings : Settings} {job : Job} (steady : job.IsSteady layout)
    (plain : Path.isPlain job.input.stem = true) (free : '/' ∉ settings.synthesis.classPrefix)
    (sees : Sees layout job.input.stem shared alone) :
    EndsAlike layout job.input.stem (process settings layout job) shared alone := by
  have unpackers : IsArtifact ["unpackers".toList] := ⟨"unpackers".toList, by simp, [], rfl⟩
  intro changed step
  have sees := sees.rely step
  refine ⟨steady.answer changed alone, ⟨?_, ?_, ?_, ?_, ?_⟩, ?_⟩
  · exact steady.keeps changed
  · exact steady.keeps alone
  · exact fun place isArtifact _ _ => steady.artifacts changed place isArtifact
  · exact .inl (steady.artifacts changed _ unpackers)
  · exact .inl (steady.artifacts changed _ unpackers)
  · have seesOn : Sees layout job.input.stem (job.load changed).1 (job.load alone).1 := by
      refine ⟨sees.stands.keep (steady.keeps _), sees.standsAlone.keep (steady.keeps _),
        fun place owns => ?_, ?_⟩
      · rw [steady.artifacts _ _ owns.isArtifact, steady.artifacts _ _ owns.isArtifact]
        exact sees.own place owns
      · rw [unpackersPlace, steady.artifacts _ _ unpackers, steady.artifacts _ _ unpackers]
        exact sees.common
    apply endsAlike_keep plain _ seesOn
    intro report unpacker completed isMade
    exact slash_not_mem_className free completed isMade

end Unpacking.Batch
