import Mathlib.Data.List.Basic
import Unpacking.Line.Basic
import Unpacking.Proofs.Text.Reading

/-!
Comments and braces of single lines. A carriage return at the end of a line changes neither. The
live balance of a line leaves out the braces behind two slashes.
-/

namespace Unpacking.Line

open Text

/-! ### Comments -/

theorem begins_append_return {word : Text} (free : '\r' ∉ word) (text : Text) :
    begins word (text ++ ['\r']) = begins word text := by
  have other : word ≠ text ++ ['\r'] := by
    intro equal
    exact free (by simp [equal])
  rw [Bool.eq_iff_iff]
  simp only [begins, List.isPrefixOf_iff_prefix, List.prefix_concat_iff, other, false_or]

theorem begins_trimStart_append_return {word : Text} (free : '\r' ∉ word) (line : Line) :
    begins word (trimStart (line ++ ['\r'])) = begins word (trimStart line) := by
  rw [trimStart_append_return]
  split
  · rename_i nothing
    rw [nothing]
  · exact begins_append_return free (trimStart line)

theorem isLineComment_append_return (line : Line) :
    isLineComment (line ++ ['\r']) = isLineComment line :=
  begins_trimStart_append_return (by decide) line

theorem isCommentOrImport_append_return (line : Line) :
    isCommentOrImport (line ++ ['\r']) = isCommentOrImport line := by
  simp only [isCommentOrImport]
  rw [begins_trimStart_append_return (by decide), begins_trimStart_append_return (by decide),
    begins_trimStart_append_return (by decide), begins_trimStart_append_return (by decide)]

theorem isCommentOrImport_of_isLineComment {line : Line} (comment : isLineComment line = true) :
    isCommentOrImport line = true := by
  simp only [isLineComment] at comment
  simp only [isCommentOrImport, comment, Bool.true_or]

theorem isLineComment_of_isCommentOrImport {line : Line}
    (isCode : isCommentOrImport line = false) : isLineComment line = false := by
  rw [Bool.eq_false_iff]
  intro comment
  rw [isCommentOrImport_of_isLineComment comment] at isCode
  exact absurd isCode (by decide)

theorem isLineComment_slashes (rest : Text) : isLineComment ('/' :: '/' :: rest) = true := by
  have slash : isBlank '/' = false := by decide
  simp [isLineComment, trimStart, slash, begins]

theorem isLineComment_cons {c : Char} (blank : isBlank c = true) (line : Line) :
    isLineComment (c :: line) = isLineComment line := by
  simp [isLineComment, trimStart, blank]

theorem isLineComment_cons_iff {c : Char} {line : Line} (solid : isBlank c = false) :
    isLineComment (c :: line) = true ↔ c = '/' ∧ line.head? = some '/' := by
  have start : trimStart (c :: line) = c :: line := by simp [trimStart, solid]
  rw [isLineComment, start, begins, List.isPrefixOf_iff_prefix]
  cases line with
  | nil => simp
  | cons d line => simp [List.cons_prefix_cons, eq_comm]

/-! ### Braces -/

@[simp] theorem braceBalance_nil : braceBalance [] = 0 := rfl

@[simp] theorem braceBalance_cons (c : Char) (line : Line) :
    braceBalance (c :: line) = braceStep c + braceBalance line := rfl

@[simp] theorem braceBalance_append (line rest : Line) :
    braceBalance (line ++ rest) = braceBalance line + braceBalance rest := by
  induction line with
  | nil => simp
  | cons c line inductionHypothesis =>
      rw [List.cons_append, braceBalance_cons, braceBalance_cons, inductionHypothesis]
      omega

/-- The number of braces on a line. -/
def braceCount (line : Line) : Nat :=
  line.countP fun c => c = '{' || c = '}'

/-- The brace balance of a line, and none for a line behind two slashes. -/
def liveBalance (line : Line) : Int :=
  if isLineComment line then 0 else braceBalance line

theorem braceBalance_append_return (line : Line) :
    braceBalance (line ++ ['\r']) = braceBalance line := by
  simp [braceStep]

theorem braceCount_append_return (line : Line) :
    braceCount (line ++ ['\r']) = braceCount line := by
  simp [braceCount]

theorem liveBalance_append_return (line : Line) :
    liveBalance (line ++ ['\r']) = liveBalance line := by
  rw [liveBalance, liveBalance, isLineComment_append_return, braceBalance_append_return]

theorem braceStep_of_not_brace {c : Char} (other : ¬(c = '{' ∨ c = '}')) : braceStep c = 0 := by
  simp only [not_or] at other
  simp [braceStep, other]

theorem braceBalance_of_braceCount {line : Line} (bare : braceCount line = 0) :
    braceBalance line = 0 := by
  induction line with
  | nil => rfl
  | cons c line inductionHypothesis =>
      simp only [braceCount, List.countP_cons] at bare inductionHypothesis
      have other : ¬(c = '{' ∨ c = '}') := by
        intro brace
        simp [brace] at bare
      rw [braceBalance_cons, braceStep_of_not_brace other, inductionHypothesis (by omega)]
      rfl

/-- Of a line with one brace at most, the first character is that brace or the rest has it. -/
theorem braceCount_cons_cases {c : Char} {line : Line} (single : braceCount (c :: line) ≤ 1) :
    braceCount line = 0 ∨ braceStep c = 0 ∧ braceCount line ≤ 1 := by
  simp only [braceCount, List.countP_cons] at single ⊢
  by_cases brace : c = '{' ∨ c = '}'
  · left
    simp [brace] at single
    simpa using single
  · exact .inr ⟨braceStep_of_not_brace brace, by omega⟩

/-- The only brace of a line decides both the final and the lowest depth. -/
theorem braceScan_of_braceCount {line : Line} {depth lowest : Int}
    (single : braceCount line ≤ 1) (below : lowest ≤ depth) :
    braceScan depth lowest line =
      (depth + braceBalance line, min lowest (depth + braceBalance line)) := by
  induction line generalizing depth lowest with
  | nil => rw [braceScan, braceBalance_nil, Int.add_zero, Int.min_eq_left below]
  | cons c line inductionHypothesis =>
      rcases braceCount_cons_cases single with rest | ⟨step, rest⟩
      · rw [braceScan, inductionHypothesis (by omega) (Int.min_le_right _ _), braceBalance_cons,
          braceBalance_of_braceCount rest, Prod.mk.injEq]
        omega
      · rw [braceScan, braceBalance_cons, step, inductionHypothesis rest (by omega),
          Prod.mk.injEq]
        omega

/-- A line with one brace at most leaves that brace unmatched. -/
theorem unmatchedBraces_of_braceCount {line : Line} (single : braceCount line ≤ 1) :
    unmatchedBraces line = ((-braceBalance line).toNat, (braceBalance line).toNat) := by
  rw [unmatchedBraces, braceScan_of_braceCount single (Int.le_refl 0), Prod.mk.injEq]
  omega

theorem braceBalance_bounds {line : Line} (single : braceCount line ≤ 1) :
    -1 ≤ braceBalance line ∧ braceBalance line ≤ 1 := by
  induction line with
  | nil => simp
  | cons c line inductionHypothesis =>
      rw [braceBalance_cons]
      rcases braceCount_cons_cases single with rest | ⟨step, rest⟩
      · have step : -1 ≤ braceStep c ∧ braceStep c ≤ 1 := by
          unfold braceStep
          split
          · omega
          · split <;> omega
        rw [braceBalance_of_braceCount rest]
        omega
      · have bounds := inductionHypothesis rest
        omega

theorem braceCount_append (line rest : Line) :
    braceCount (line ++ rest) = braceCount line + braceCount rest :=
  List.countP_append

/-- A line with one brace at most that holds an opening brace opens one block. -/
theorem braceBalance_of_mem {line : Line} (single : braceCount line ≤ 1) (opens : '{' ∈ line) :
    braceBalance line = 1 := by
  obtain ⟨start, rest, rfl⟩ := List.append_of_mem opens
  have brace : braceCount ('{' :: rest) = braceCount rest + 1 := by simp [braceCount]
  rw [braceCount_append, brace] at single
  rw [braceBalance_append, braceBalance_cons, braceBalance_of_braceCount (by omega),
    braceBalance_of_braceCount (by omega)]
  rfl

end Unpacking.Line
