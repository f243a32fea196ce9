import Unpacking.Proofs.Renaming.Inert
import Unpacking.Proofs.Stage.PlatformImport
import Unpacking.Proofs.Unpacker.Synthesis

/-!
The platform imports of a synthesized program. None of them is in force in its source, and those
that nothing is substituted for are listed once each, in the order in which the collected classes
name them first. Main statement: `imports_of_synthesize`.
-/

namespace Unpacking

open Text

/-! ### Imports without a rule -/

namespace Substitution

/-- The platform imports that there is a rule for. -/
def known : List Text :=
  ["dalvik.system.DexClassLoader", "dalvik.system.PathClassLoader", "android.os.Build",
    "android.content.pm.ApplicationInfo", "android.util.ArrayMap", "android.app.Application",
    "android.content.Context"]

theorem rule?_eq_none_iff {context : Context} {name : Text} :
    rule? context name = none ↔ name ∉ known := by
  constructor
  · intro unruled member
    have ruled : ∀ name ∈ known, (rule? context name).isSome = true := by
      simp only [known, List.forall_mem_cons]
      exact ⟨rfl, rfl, rfl, rfl, rfl, rfl, rfl, nofun⟩
    simpa [unruled] using ruled name member
  · intro unknown
    simp only [known, List.mem_cons, not_or] at unknown
    obtain ⟨dex, path, build, info, map, application, context, -⟩ := unknown
    simp only [rule?, beq_false_of_ne dex, beq_false_of_ne path, beq_false_of_ne build,
      beq_false_of_ne info, beq_false_of_ne map, beq_false_of_ne application,
      beq_false_of_ne context, Bool.or_self, Bool.false_eq_true, if_false]

/-- A platform import that nothing is substituted for. -/
def isUnhandled (namespaces : List Text) (name : Text) : Bool :=
  Stage.isPlatformName namespaces name && !known.contains name

theorem isUnhandled_iff {namespaces : List Text} {name : Text} :
    isUnhandled namespaces name = true ↔ Stage.LiesIn namespaces name ∧ name ∉ known := by
  simp [isUnhandled, Stage.isPlatformName_iff]

theorem unhandled_step (namespaces : List Text) (context : Context) (progress : Progress)
    (name : Text) :
    (step namespaces context progress name).unhandled =
      progress.unhandled ++ [name].filter (isUnhandled namespaces) := by
  rw [step, List.filter_singleton]
  split
  · rename_i foreign
    simp_all [isUnhandled]
  · rename_i isPlatform
    have isKnown := @rule?_eq_none_iff context name
    split <;> simp_all [isUnhandled]

theorem unhandled_apply (namespaces : List Text) (context : Context) (imports : List Text)
    (text : Text) :
    (apply namespaces context imports text).unhandled =
      imports.filter (isUnhandled namespaces) := by
  have run (progress : Progress) : (imports.foldl (step namespaces context) progress).unhandled =
      progress.unhandled ++ imports.filter (isUnhandled namespaces) := by
    induction imports generalizing progress with
    | nil => simp
    | cons name rest inductionHypothesis =>
        rw [List.foldl_cons, inductionHypothesis, unhandled_step, List.append_assoc,
          ← List.filter_append, List.singleton_append]
  rw [apply, run, List.nil_append]

end Substitution

/-! ### Drafts -/

namespace Draft

/-- What holds of the lines of every segment holds of the lines of the whole, if it holds of the
beginnings of lines as well. -/
theorem forall_lines_merged {property : Line → Prop} {draft : Draft} (empty : property [])
    (shortened : ∀ line more, property (line ++ more) → property line)
    (holds : ∀ segment ∈ draft, ∀ line ∈ lines segment.text, property line) :
    ∀ line ∈ lines draft.merged, property line := by
  induction draft with
  | nil => simp [merged, lines]
  | cons segment rest inductionHypothesis =>
      obtain ⟨here, others⟩ := List.forall_mem_cons.mp holds
      have opened : merged (segment :: rest) =
          trimEnd segment.text ++ '\n' :: '\n' :: merged rest := by
        simp [merged]
      have cut : trimEnd segment.text <+: segment.text := by
        rw [← List.reverse_suffix, trimEnd, List.reverse_reverse]
        exact List.dropWhile_suffix isBlank
      intro line member
      rw [opened] at member
      rcases mem_lines_of_prefix cut member with rfl | later | ⟨whole, inside, more, rfl⟩
      · exact empty
      · rcases List.mem_cons.mp (by simpa [lines] using later) with rfl | later
        · exact empty
        · exact inductionHypothesis others line later
      · exact shortened line more (here _ inside)

theorem map_imports_mapText (change : Text → Text) (draft : Draft) :
    (draft.mapText change).map Segment.imports = draft.map Segment.imports := by
  simp [mapText]

end Draft

namespace Unpacker

variable {toolkit : Toolkit} {settings : SynthesisSettings} {path : Text} {facts : Facts}
  {entry : ClassFact}

theorem map_imports_renamedDraft {classes : List ClassFact} {draft : Draft}
    (ran : renamedDraft toolkit classes = .ok draft) :
    draft.map Segment.imports = classes.map ClassFact.imports := by
  obtain ⟨renamer, renamed, -, done, rfl⟩ := renamedDraft_eq_ok ran
  have sizes : classes.length = renamed.length := by
    simpa using (Renaming.revises_renameAll done).length_eq
  have firsts := List.map_fst_zip sizes.le
  conv_rhs => rw [← firsts]
  simp

theorem map_imports_freeDraft {standIn : Text} {draft freed : Draft} {log : Log}
    (ran : freeDraft toolkit standIn draft = .ok (freed, log)) :
    freed.map Segment.imports = draft.map Segment.imports := by
  cases draft with
  | nil => rw [← (Prod.mk.inj (Except.ok.inj ran)).1]
  | cons segment rest =>
      rw [freeDraft] at ran
      split at ran
      · simp at ran
      · rw [← (Prod.mk.inj (Except.ok.inj ran)).1]
        rfl

theorem unhandled_substitute (settings : SynthesisSettings) (path : Text) (draft : Draft) :
    (substitute settings path draft).unhandled =
      (((draft.map Segment.imports).flatten).filter
        (Substitution.isUnhandled settings.platformNamespaces)).eraseDups := by
  simp [substitute, Substitution.unhandled_apply, List.filter_flatten,
    List.flatMap_def, List.map_map, Function.comp_def]

/-- The listed imports are the first appearances of unhandled imports among those of the collected
classes. -/
theorem unhandledImports_of_synthesize {unpacker : Unpacker} {log : Log}
    (made : synthesize toolkit settings path facts (some entry) = .ok (unpacker, log)) :
    unpacker.unhandledImports =
      (((Dependencies.collect entry facts).flatMap ClassFact.imports).filter
        (Substitution.isUnhandled settings.platformNamespaces)).eraseDups := by
  obtain ⟨prepared, ready, -, listed⟩ := synthesize_eq_ok made
  obtain ⟨freed, entryLog, done, -, unhandled⟩ := prepare_eq_ok ready
  obtain ⟨renamed, named, cleared⟩ := freedDraft_eq_ok done
  rw [listed, unhandled, unhandled_substitute, Draft.map_imports_mapText,
    map_imports_freeDraft cleared, Draft.map_imports_mapText, map_imports_renamedDraft named,
    List.flatMap_def]

/-- The first appearances of some names among more names keep their order. -/
theorem pairwise_eraseDups (names : List Text) (keep : Text → Bool) :
    (names.filter keep).eraseDups.Pairwise fun one other =>
      names.idxOf one < names.idxOf other := by
  induction names generalizing keep with
  | nil => simp
  | cons name rest inductionHypothesis =>
      have shifted (keep : Text → Bool) (other : keep name = false) :
          (rest.filter keep).eraseDups.Pairwise fun one other =>
            (name :: rest).idxOf one < (name :: rest).idxOf other := by
        refine (inductionHypothesis keep).imp_of_mem fun {one two} isOne isTwo before => ?_
        have apart {one : Text} (isOne : one ∈ (rest.filter keep).eraseDups) : name ≠ one := by
          rintro rfl
          simp [other] at isOne
        rw [List.idxOf_cons_ne _ (apart isOne), List.idxOf_cons_ne _ (apart isTwo)]
        omega
      by_cases kept : keep name
      · rw [List.filter_cons_of_pos kept, List.eraseDups_cons, List.filter_filter,
          List.pairwise_cons]
        refine ⟨fun one member => ?_, shifted _ (by simp)⟩
        have different : name ≠ one := by
          rintro rfl
          simp at member
        rw [List.idxOf_cons_self, List.idxOf_cons_ne _ different]
        omega
      · rw [List.filter_cons_of_neg kept]
        exact shifted keep (by simpa using kept)

theorem isPortable_source {unpacker : Unpacker} {log : Log}
    (made : synthesize toolkit settings path facts (some entry) = .ok (unpacker, log)) :
    ∀ line ∈ lines unpacker.source, Stage.IsPortable settings.platformNamespaces line := by
  obtain ⟨prepared, ready, cleaned, -⟩ := synthesize_eq_ok made
  have removed := Reflection.remove_of_compileAndRemove cleaned
  have portable : ∀ segment ∈ prepared.draft,
      ∀ line ∈ lines segment.text, Stage.IsPortable settings.platformNamespaces line := by
    obtain ⟨freed, entryLog, -, draft, -⟩ := prepare_eq_ok ready
    rw [draft]
    intro segment member
    obtain ⟨old, -, rfl⟩ := List.mem_map.mp member
    exact Stage.isPortable_commentPlatformImports old.text
  have merged := Draft.forall_lines_merged (Stage.isPortable_of_none rfl)
    (fun _ _ whole => whole.of_append) portable
  exact (Reflection.follows_of_remove removed).swept.forall_lines Stage.isLasting_isPortable merged

/-- Every platform import is accounted for. No line of the program imports a name of the platform,
and the imports of the collected classes that nothing is substituted for are listed once each, in
the order of their first appearance. -/
theorem imports_of_synthesize {unpacker : Unpacker} {log : Log}
    (made : synthesize toolkit settings path facts (some entry) = .ok (unpacker, log)) :
    let imports := (Dependencies.collect entry facts).flatMap ClassFact.imports
    (∀ line ∈ lines unpacker.source, ∀ name, Stage.importLine? line = some name →
        ¬Stage.LiesIn settings.platformNamespaces name) ∧
      unpacker.unhandledImports.Nodup ∧
      (∀ name, name ∈ unpacker.unhandledImports ↔ name ∈ imports ∧
        Stage.LiesIn settings.platformNamespaces name ∧ name ∉ Substitution.known) ∧
      unpacker.unhandledImports.Pairwise fun one other =>
        imports.idxOf one < imports.idxOf other := by
  intro imports
  have listed := unhandledImports_of_synthesize made
  refine ⟨isPortable_source made, ?_, fun name => ?_, ?_⟩
  · rw [listed]
    exact Reflection.nodup_eraseDups _
  · rw [listed, List.mem_eraseDups, List.mem_filter, Substitution.isUnhandled_iff]
  · rw [listed]
    exact pairwise_eraseDups imports _

/-- Two classes that share an import without a rule, and one import that there is a rule for. -/
theorem imports_of_synthesize_shared :
    let entry : ClassFact :=
      { name := "a.A"
        imports := ["android.view.View", "android.os.Build"]
        source := "import android.view.View;\nclass A \x7b void m() \x7b B.call(); \x7d \x7d" }
    let other : ClassFact :=
      { name := "a.B"
        imports := ["android.view.Menu", "android.view.View"]
        source := "class B \x7b void call() \x7b \x7d \x7d" }
    let facts := Facts.ofClasses [entry, other] []
    ∃ unpacker log, synthesize {} {} "app" facts (some entry) = .ok (unpacker, log) ∧
      unpacker.unhandledImports = ["android.view.View".toList, "android.view.Menu".toList] ∧
      unpacker.unhandledImports.Nodup ∧
      ∀ line ∈ lines unpacker.source, ∀ name, Stage.importLine? line = some name →
        ¬Stage.LiesIn ({} : SynthesisSettings).platformNamespaces name := by
  intro entry other facts
  have candidates : Dependencies.candidates entry facts = [other] := by decide +kernel
  have referred : [other].filter entry.refersTo = [other] := by decide +kernel
  have collected : Dependencies.collect entry facts = [entry, other] := by
    rw [Dependencies.collect_eq_cons, candidates, referred, Dependencies.collectFrom_singleton]
  have counted : hits? {} {} "app" entry [entry, other] = some 0 := by decide +kernel
  rw [← collected] at counted
  obtain ⟨unpacker, log, made, -⟩ := exists_synthesize_of_hits? counted
  obtain ⟨portable, distinct, -, -⟩ := imports_of_synthesize made
  refine ⟨unpacker, log, made, ?_, distinct, portable⟩
  rw [unhandledImports_of_synthesize made, collected]
  decide +kernel

end Unpacker

end Unpacking
