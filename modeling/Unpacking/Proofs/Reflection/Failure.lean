import Mathlib.Data.List.Chain
import Unpacking.Proofs.Reflection.Worklist

/-!
The one way in which a removal fails: a value that begins with a character outside of ASCII, right
behind its equals sign. The passes add no equals sign to live code, so the line with that value is
a part of the source, whichever of the intermediate texts it is found in. Main statement:
`remove_of_narrow`.
-/

namespace Unpacking.Reflection

open Text Line

/-- Every character right behind an equals sign is ASCII. -/
def HasNarrowValues (text : Text) : Prop :=
  List.IsChain (fun c next => c = '=' → next.toNat < 128) text

instance (text : Text) : Decidable (HasNarrowValues text) :=
  inferInstanceAs (Decidable (List.IsChain _ text))

/-- The reason of a failure is a part of the source, with a character outside of ASCII right behind
an equals sign. -/
inductive IsWideValue (source : Text) : RemovalError → Prop
  | unreadable {front rest : Text} {c : Char} (inSource : front ++ '=' :: c :: rest <:+: source)
      (wide : 128 ≤ c.toNat) : IsWideValue source (.unreadableValue (front ++ '=' :: c :: rest))

theorem not_hasNarrowValues {source : Text} {error : RemovalError}
    (isWide : IsWideValue source error) : ¬HasNarrowValues source := by
  intro narrow
  obtain ⟨inSource, wide⟩ := isWide
  have inLine := List.IsChain.infix narrow inSource
  have small := (List.isChain_append_cons_cons.mp inLine).2.1 rfl
  omega

/-! ### A line that fails -/

theorem wide_of_not_isReadable {line : Line} {assignment : Assignment}
    (assigns : assignment? line = some assignment) (unreadable : assignment.isReadable = false) :
    ∃ front c rest, line = front ++ '=' :: c :: rest ∧ 128 ≤ c.toNat := by
  obtain ⟨front, whole, filled⟩ := split_of_assignment? assigns
  obtain ⟨c, rest, value⟩ := List.exists_cons_of_ne_nil filled
  refine ⟨front, c, rest, by rw [whole, value], ?_⟩
  rw [Assignment.isReadable, value] at unreadable
  have size : c.utf8Size ≠ 1 := by simpa using unreadable
  rw [ne_eq, Char.utf8Size_eq_one_iff, UInt32.le_iff_toNat_le] at size
  exact Nat.lt_of_not_le size

theorem taintedVariable?_eq_error {term : Text} {line : Line} {error : RemovalError}
    (failed : taintedVariable? term line = .error error) :
    error = .unreadableValue line ∧
      ∃ assignment, assignment? line = some assignment ∧ assignment.isReadable = false := by
  unfold taintedVariable? at failed
  split at failed
  · simp at failed
  · rename_i assignment assigns
    split at failed
    · rename_i unreadable
      exact ⟨(Except.error.inj failed).symm, assignment, assigns, by simpa using unreadable⟩
    · split at failed <;> simp at failed

theorem sweepLine_eq_error {term : Text} {line : Line} {error : RemovalError}
    (failed : sweepLine term line = .error error) :
    isCommentOrImport line = false ∧ taintedVariable? term line = .error error := by
  unfold sweepLine at failed
  split at failed
  · simp at failed
  · rename_i hit
    refine ⟨isCommentOrImport_of_staysLive (Bool.eq_false_iff.mpr hit), ?_⟩
    split at failed
    · rename_i reason tainted
      rw [tainted, Except.error.inj failed]
    · simp at failed
    · simp at failed

/-- A line that fails is own code, so it is a part of the source. -/
theorem isWideValue_of_sweepLine {source term : Text} {line : Line} {error : RemovalError}
    (derived : IsDerived source line) (failed : sweepLine term line = .error error) :
    IsWideValue source error := by
  obtain ⟨isCode, tainted⟩ := sweepLine_eq_error failed
  obtain ⟨rfl, assignment, assigns, unreadable⟩ := taintedVariable?_eq_error tainted
  -- A line that assigns is neither a comment nor a placeholder of an earlier pass.
  have inSource := derived (isOwnCode_of_meaning isCode (.inr (by simp [assigns])))
  obtain ⟨front, c, rest, rfl, wide⟩ := wide_of_not_isReadable assigns unreadable
  exact .unreadable inSource wide

/-! ### A run that fails -/

theorem sweepLines_eq_error {term : Text} {lines : List Line} {error : RemovalError}
    (failed : sweepLines term lines = .error error) :
    ∃ line ∈ lines, sweepLine term line = .error error := by
  induction lines with
  | nil => simp [sweepLines] at failed
  | cons line rest inductionHypothesis =>
      rw [sweepLines] at failed
      split at failed
      · rename_i reason first
        exact ⟨line, List.mem_cons_self, by rw [first, Except.error.inj failed]⟩
      · split at failed
        · rename_i reason others
          rw [Except.error.inj failed] at others
          obtain ⟨later, inside, fails⟩ := inductionHypothesis others
          exact ⟨later, List.mem_cons_of_mem line inside, fails⟩
        · simp at failed

theorem linePass_eq_error {term text : Text} {error : RemovalError}
    (failed : linePass term text = .error error) :
    ∃ line ∈ lines text, sweepLine term line = .error error := by
  unfold linePass at failed
  split at failed
  · rename_i reason swept
    rw [Except.error.inj failed] at swept
    exact sweepLines_eq_error swept
  · simp at failed

/-- A sweep of any intermediate text fails because of the source. -/
theorem Swept.isWideValue {source text term : Text} {terms : List Text} {findings : List Finding}
    {error : RemovalError} (swept : Swept source terms text findings)
    (failed : linePass term (methodPass term text).1 = .error error) :
    IsWideValue source error := by
  obtain ⟨line, inside, fails⟩ := linePass_eq_error failed
  have derived := forall_lines_methodPass (isLasting_isDerived source) swept.isDerived term
  exact isWideValue_of_sweepLine (derived line inside) fails

namespace Removal

theorem isWideValue_of_sweep {source term : Text} {terms : List Text} {removal : Removal}
    {error : RemovalError} (failed : removal.sweep term = .error error)
    (swept : Swept source terms removal.text removal.findings) : IsWideValue source error := by
  unfold sweep at failed
  simp only at failed
  split at failed
  · rename_i reason passed
    rw [Except.error.inj failed] at passed
    exact swept.isWideValue passed
  · simp at failed

theorem isWideValue_of_sweepAll {source : Text} {done terms : List Text} {removal : Removal}
    {error : RemovalError} (failed : removal.sweepAll terms = .error error)
    (swept : Swept source done removal.text removal.findings) : IsWideValue source error := by
  induction terms generalizing done removal with
  | nil => simp [sweepAll_nil] at failed
  | cons term rest inductionHypothesis =>
      rw [sweepAll_cons] at failed
      split at failed
      · rename_i reason first
        rw [Except.error.inj failed] at first
        exact isWideValue_of_sweep first swept
      · rename_i next first
        obtain ⟨names, step⟩ := isSweep_of_sweep first
        exact inductionHypothesis failed (step.swept source done swept)

theorem isWideValue_of_drain {source : Text} {done : List Text} {limit : Nat} {removal : Removal}
    {error : RemovalError} (failed : removal.drain limit = .error error)
    (swept : Swept source done removal.text removal.findings) : IsWideValue source error := by
  induction limit generalizing done removal with
  | zero => simp [drain_zero] at failed
  | succ limit inductionHypothesis =>
      rw [drain_succ] at failed
      split at failed
      · simp at failed
      · rename_i name pending next
        split at failed
        · rename_i reason first
          rw [Except.error.inj failed] at first
          exact isWideValue_of_sweep first swept
        · rename_i result first
          obtain ⟨names, step⟩ := isSweep_of_sweep first
          exact inductionHypothesis failed (step.swept source done swept)

end Removal

theorem isWideValue_of_remove {terms : List Text} {source : Text} {error : RemovalError}
    (failed : remove terms source = .error error) : IsWideValue source error := by
  rw [remove_eq] at failed
  split at failed
  · rename_i reason swept
    rw [Except.error.inj failed] at swept
    exact Removal.isWideValue_of_sweepAll swept .start
  · rename_i start swept
    exact Removal.isWideValue_of_drain failed (Removal.follows_start swept).swept

/-- A removal succeeds and empties its worklist, whatever the terms are, if every character right
behind an equals sign of the source is ASCII. If it fails, it names a part of the source that has
another character there. -/
theorem remove_of_narrow (terms : List Text) (source : Text) :
    (HasNarrowValues source → ∃ removal, remove terms source = .ok removal ∧ removal.pending = []) ∧
      ∀ error, remove terms source = .error error → IsWideValue source error := by
  refine ⟨fun narrow => ?_, fun error => isWideValue_of_remove⟩
  cases removed : remove terms source with
  | error error => exact absurd narrow (not_hasNarrowValues (isWideValue_of_remove removed))
  | ok removal =>
      obtain ⟨start, -, -, emptied⟩ := turns_of_remove removed
      exact ⟨removal, rfl, emptied⟩

/-- A chain of assignments with characters outside of ASCII, none of them behind an equals sign. -/
def narrowValues : Text :=
  "a = forName(\"é\");\nb= é + a;\nc=b;"

/-- A value that begins with a character outside of ASCII. -/
def wideValue : Text :=
  "a =é.forName(x)"

theorem remove_of_narrow_chain :
    HasNarrowValues narrowValues ∧
      (∃ removal, remove vocabulary narrowValues = .ok removal ∧ removal.pending = []) ∧
      remove vocabulary wideValue = .error (.unreadableValue wideValue) ∧
      IsWideValue wideValue (.unreadableValue wideValue) := by
  have narrow : HasNarrowValues narrowValues := by decide +kernel
  have failed : remove vocabulary wideValue = .error (.unreadableValue wideValue) := by
    decide +kernel
  exact ⟨narrow, (remove_of_narrow vocabulary narrowValues).1 narrow, failed,
    (remove_of_narrow vocabulary wideValue).2 _ failed⟩

end Unpacking.Reflection
