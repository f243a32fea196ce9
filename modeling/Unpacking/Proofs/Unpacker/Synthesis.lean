import Unpacking.Proofs.Analysis.Dependencies
import Unpacking.Unpacker

/-!
What a synthesis comes to. It carries the sources of the collected classes through the stages, and
then removes their reflection. It succeeds exactly when the stages and the removal do. A removal
that compiles its patterns does what a removal does that has them at hand, as far as it comes.
-/

namespace Unpacking

/-! ### Removals that compile their patterns -/

namespace Reflection.Removal

variable {ε ε' : Type} {sweep : Removal → Text → Except ε Removal}
  {sweep' : Removal → Text → Except ε' Removal}

/-- A sweep does what another one does, as far as it comes. -/
def Extends (sweep' : Removal → Text → Except ε' Removal)
    (sweep : Removal → Text → Except ε Removal) : Prop :=
  ∀ removal term swept, sweep removal term = .ok swept → sweep' removal term = .ok swept

theorem Extends.sweepAllBy (extension : Extends sweep' sweep) {terms : List Text}
    {removal result : Removal} (swept : removal.sweepAllBy sweep terms = .ok result) :
    removal.sweepAllBy sweep' terms = .ok result := by
  induction terms generalizing removal with
  | nil => exact congrArg Except.ok (Except.ok.inj swept)
  | cons term terms inductionHypothesis =>
      rw [Removal.sweepAllBy] at swept ⊢
      cases first : sweep removal term with
      | error error => simp [first] at swept
      | ok next =>
          rw [extension removal term next first]
          exact inductionHypothesis (by simpa [first] using swept)

theorem Extends.drainBy (extension : Extends sweep' sweep) {limit : Nat}
    {removal result : Removal} (drained : removal.drainBy sweep limit = .ok result) :
    removal.drainBy sweep' limit = .ok result := by
  induction limit generalizing removal with
  | zero => exact congrArg Except.ok (Except.ok.inj drained)
  | succ limit inductionHypothesis =>
      rw [Removal.drainBy] at drained ⊢
      generalize removal.pending.dropWhile removal.processed.contains = waiting at drained ⊢
      cases waiting with
      | nil => exact congrArg Except.ok (Except.ok.inj drained)
      | cons name pending =>
          dsimp only at drained ⊢
          cases first : sweep { removal with pending } name with
          | error error => simp [first] at drained
          | ok next =>
              rw [extension _ name next first]
              exact inductionHypothesis (by simpa [first] using drained)

theorem Extends.removeBy (extension : Extends sweep' sweep) {terms : List Text} {source : Text}
    {result : Removal} (removed : Removal.removeBy sweep terms source = .ok result) :
    Removal.removeBy sweep' terms source = .ok result := by
  rw [Removal.removeBy] at removed ⊢
  cases swept : ({ text := source } : Removal).sweepAllBy sweep terms with
  | error error => simp [swept] at removed
  | ok start =>
      rw [extension.sweepAllBy swept]
      exact extension.drainBy (by simpa [swept] using removed)

theorem extends_compileAndSweep (termError? : Text → Option Text) :
    Extends Removal.sweep (Removal.compileAndSweep termError?) := by
  intro removal term swept done
  rw [compileAndSweep] at done
  split at done
  · simp at done
  · cases result : removal.sweep term with
    | error error => simp [result, Except.mapError] at done
    | ok next => simpa [result, Except.mapError] using done

end Reflection.Removal

theorem Reflection.remove_of_compileAndRemove {termError? : Text → Option Text}
    {terms : List Text} {source : Text} {removal : Reflection.Removal}
    (removed : compileAndRemove termError? terms source = .ok removal) :
    remove terms source = .ok removal :=
  (Removal.extends_compileAndSweep termError?).removeBy removed

/-! ### Synthesis -/

namespace Unpacker

open Reflection

variable {toolkit : Toolkit} {settings : SynthesisSettings} {path : Text} {facts : Facts}
  {entry : ClassFact} {classes : List ClassFact}

theorem renamedDraft_eq_ok {draft : Draft}
    (ran : renamedDraft toolkit classes = .ok draft) :
    ∃ renamer renamed, toolkit.renamer = .ok renamer ∧
      (Renaming.renameAll renamer [] (classes.map fun fact => (fact.simpleName, fact.source))).1 =
        .ok renamed ∧
      draft = (classes.zip renamed).map fun both =>
        { className := both.1.name, imports := both.1.imports, text := both.2.source } := by
  rw [renamedDraft] at ran
  split at ran
  · simp at ran
  · rename_i renamer found
    split at ran
    · simp at ran
    · rename_i renamed done
      exact ⟨renamer, renamed, found, done, (Except.ok.inj ran).symm⟩

/-- The draft that is freed from the platform is the draft of the renamed classes, with the name of
the entry class changed. -/
theorem freedDraft_eq_ok {freed : Draft} {log : Log}
    (ran : freedDraft toolkit settings path entry classes = .ok (freed, log)) :
    ∃ draft, renamedDraft toolkit classes = .ok draft ∧
      freeDraft toolkit settings.contextStandIn
        (draft.mapText (Stage.renameClass entry.simpleName (classNameFor settings path))) =
          .ok (freed, log) := by
  rw [freedDraft] at ran
  split at ran
  · simp at ran
  · rename_i draft done
    split at ran
    · simp at ran
    · exact ⟨draft, done, ran⟩

theorem prepare_eq_ok {prepared : Prepared}
    (ran : prepare toolkit settings path entry classes = .ok prepared) :
    ∃ freed log, freedDraft toolkit settings path entry classes = .ok (freed, log) ∧
      prepared.draft = (substitute settings path (freed.mapText makeStatic)).draft.mapText
        (Stage.commentPlatformImports settings.platformNamespaces) ∧
      prepared.unhandled = (substitute settings path (freed.mapText makeStatic)).unhandled := by
  rw [prepare] at ran
  split at ran
  · simp at ran
  · rename_i freed log done
    rw [← Except.ok.inj ran]
    exact ⟨freed, log, done, rfl, rfl⟩

/-- A synthesis is a removal on what the stages have prepared. -/
theorem synthesize_eq_ok {unpacker : Unpacker} {log : Log}
    (made : synthesize toolkit settings path facts (some entry) = .ok (unpacker, log)) :
    ∃ prepared,
      prepare toolkit settings path entry (Dependencies.collect entry facts) = .ok prepared ∧
      compileAndRemove toolkit.termError? vocabulary prepared.draft.merged = .ok unpacker.removal ∧
      unpacker.unhandledImports = prepared.unhandled := by
  rw [synthesize, synthesizeFrom] at made
  cases ready : prepare toolkit settings path entry (Dependencies.collect entry facts) with
  | error error => simp [ready] at made
  | ok prepared =>
      simp only [ready] at made
      cases removed : compileAndRemove toolkit.termError? vocabulary prepared.draft.merged with
      | error interruption => cases interruption <;> simp [removed] at made
      | ok removal =>
          simp only [removed, Except.ok.injEq, Prod.mk.injEq] at made
          rw [← made.1]
          exact ⟨prepared, rfl, removed, rfl⟩

theorem exists_synthesize {prepared : Prepared} {removal : Removal}
    (ready : prepare toolkit settings path entry (Dependencies.collect entry facts) = .ok prepared)
    (removed : compileAndRemove toolkit.termError? vocabulary prepared.draft.merged =
      .ok removal) :
    ∃ unpacker log, synthesize toolkit settings path facts (some entry) = .ok (unpacker, log) ∧
      unpacker.removal = removal := by
  rw [synthesize, synthesizeFrom, ready]
  simp only [removed]
  exact ⟨_, _, rfl, rfl⟩

/-- The number of places that the removal of a synthesis neutralises, if it succeeds. -/
def hits? (toolkit : Toolkit) (settings : SynthesisSettings) (path : Text) (entry : ClassFact)
    (classes : List ClassFact) : Option Nat :=
  match prepare toolkit settings path entry classes with
  | .error _ => none
  | .ok prepared =>
    match compileAndRemove toolkit.termError? vocabulary prepared.draft.merged with
    | .error _ => none
    | .ok removal => some removal.hits

theorem exists_synthesize_of_hits? {hits : Nat}
    (counted : hits? toolkit settings path entry (Dependencies.collect entry facts) = some hits) :
    ∃ unpacker log, synthesize toolkit settings path facts (some entry) = .ok (unpacker, log) ∧
      unpacker.removal.hits = hits := by
  rw [hits?] at counted
  split at counted
  · simp at counted
  · rename_i prepared ready
    split at counted
    · simp at counted
    · rename_i removal removed
      obtain ⟨unpacker, log, made, same⟩ := exists_synthesize ready removed
      exact ⟨unpacker, log, made, by rw [same, Option.some.inj counted]⟩

end Unpacker

end Unpacking
