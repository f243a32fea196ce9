import Unpacking.Proofs.Line.Basic
import Unpacking.Proofs.Line.Signature
import Unpacking.Proofs.Reflection.Term
import Unpacking.Reflection.Removal

/-!
The lines that a removal adds. A comment behind two slashes is never live again. A placeholder is
live code, but it declares no method, assigns nothing, and holds no name besides two words.
-/

namespace Unpacking.Reflection

open Text Line

/-- A line that only stands for a brace of a removed line. -/
def isPlaceholder (line : Line) : Bool :=
  trimStart line == ("\x7d" : Text) || trimStart line == ("if (true) \x7b" : Text)

theorem isPlaceholder_cases {line : Line} (placeholder : isPlaceholder line = true) :
    trimStart line = ("\x7d" : Text) ∨ trimStart line = ("if (true) \x7b" : Text) := by
  simpa [isPlaceholder] using placeholder

theorem trimStart_indentation_append (line rest : Text) :
    trimStart (indentation line ++ rest) = trimStart rest :=
  List.dropWhile_append_of_pos fun _ member => List.mem_takeWhile_imp member

theorem isPlaceholder_close (line : Line) :
    isPlaceholder (indentation line ++ ("\x7d" : Text)) = true := by
  rw [isPlaceholder, trimStart_indentation_append]
  decide

theorem isPlaceholder_open (line : Line) :
    isPlaceholder (indentation line ++ ("if (true) \x7b" : Text)) = true := by
  rw [isPlaceholder, trimStart_indentation_append]
  decide

/-- A placeholder ends with its brace. -/
theorem isPlaceholder_append_return (line : Line) : isPlaceholder (line ++ ['\r']) = false := by
  rw [Bool.eq_false_iff]
  intro placeholder
  have whole := isPlaceholder_cases placeholder
  rw [trimStart_append_return] at whole
  split at whole
  · exact absurd whole (by decide)
  · have last : ('\r' = '}') ∨ ('\r' = '{') := by
      rcases whole with whole | whole
      · exact .inl (by simpa using congrArg List.getLast? whole)
      · exact .inr (by simpa using congrArg List.getLast? whole)
    exact absurd last (by decide)

theorem isCommentOrImport_of_isPlaceholder {line : Line} (placeholder : isPlaceholder line = true) :
    isCommentOrImport line = false := by
  rcases isPlaceholder_cases placeholder with whole | whole <;>
    (rw [isCommentOrImport, whole]; decide)

theorem isLineComment_of_isPlaceholder {line : Line} (placeholder : isPlaceholder line = true) :
    isLineComment line = false :=
  isLineComment_of_isCommentOrImport (isCommentOrImport_of_isPlaceholder placeholder)

theorem parse?_of_isPlaceholder {line : Line} (placeholder : isPlaceholder line = true) :
    Signature.parse? line = none := by
  have unbegun : Signature.beginning? line = none := by
    rcases isPlaceholder_cases placeholder with whole | whole <;>
      (rw [Signature.beginning?, whole]; decide)
  rw [Signature.parse?, unbegun]
  rfl

theorem assignment?_of_isPlaceholder {line : Line} (placeholder : isPlaceholder line = true) :
    assignment? line = none := by
  rw [← assignment?_trimStart]
  rcases isPlaceholder_cases placeholder with whole | whole <;> (rw [whole]; decide)

/-- The words of a placeholder are the only names that it holds. -/
theorem word_of_isPlaceholder {line : Line} {term : Text} (placeholder : isPlaceholder line = true)
    (name : IsName term) (found : occurs term line = true) :
    term = ("if" : Text) ∨ term = ("true" : Text) := by
  rw [← occurs_trimStart name] at found
  have member := mem_runs_of_occurs name found
  have closing : ∀ run ∈ ("\x7d" : Text).takeWhile isNameCharacter :: runsBehind "\x7d",
      run = [] := by decide
  have opening : ∀ run ∈ ("if (true) \x7b" : Text).takeWhile isNameCharacter ::
      runsBehind "if (true) \x7b", run = [] ∨ run = ("if" : Text) ∨ run = ("true" : Text) := by
    decide
  rcases isPlaceholder_cases placeholder with whole | whole
  · rw [whole] at member
    exact absurd (closing term member) name.1
  · rw [whole] at member
    exact (opening term member).resolve_left name.1

/-! ### Comments -/

theorem isLineComment_methodLead (line : Line) : isLineComment (methodLead ++ line) = true :=
  isLineComment_slashes _

theorem isLineComment_methodMarker : isLineComment methodMarker = true :=
  isLineComment_slashes _

/-- The lines for a removed line are a comment and placeholders. -/
theorem mem_commentedLine {line added : Line} (member : added ∈ commentedLine line) :
    isLineComment added = true ∨ isPlaceholder added = true := by
  simp only [commentedLine, List.mem_append, List.mem_singleton, List.mem_replicate] at member
  rcases member with (rfl | ⟨-, rfl⟩) | ⟨-, rfl⟩
  · exact .inl (isLineComment_slashes _)
  · exact .inr (isPlaceholder_close line)
  · exact .inr (isPlaceholder_open line)

end Unpacking.Reflection
