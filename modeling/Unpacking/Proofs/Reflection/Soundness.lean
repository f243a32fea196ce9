import Unpacking.Proofs.Reflection.Worklist

/-!
What a removal guarantees of its result: a line that holds a reflective name declares a method, or
is a comment or an import. Each term is swept only once, so what its sweep achieves has to last
through all later sweeps.
-/

namespace Unpacking.Reflection

open Text Line

/-- A line that needs no further change for a term. -/
def IsSettled (term : Text) (line : Line) : Prop :=
  isPlaceholder line = true ∨ staysLive term line = true

theorem staysLive_append_return {term : Text} (name : IsName term) (line : Line) :
    staysLive term (line ++ ['\r']) = staysLive term line := by
  rw [staysLive, staysLive, isCommentOrImport_append_return, occurs_append_return name,
    Signature.parse?_append_return]

theorem isLasting_isSettled {term : Text} (name : IsName term) : IsLasting (IsSettled term) where
  comment := by
    intro line comment
    right
    simp [staysLive, isCommentOrImport_of_isLineComment comment]
  placeholder := fun line placeholder => .inl placeholder
  shortened := by
    intro line settled
    rcases settled with placeholder | live
    · simp [isPlaceholder_append_return] at placeholder
    · rw [staysLive_append_return name] at live
      exact .inr live

/-- The second pass settles every line for its term. -/
theorem isSettled_of_linePass {term text result : Text} {found : List Finding}
    (name : IsName term) (passed : linePass term text = .ok (result, found)) :
    ∀ line ∈ lines result, IsSettled term line := by
  obtain ⟨pass, made⟩ := pass_linePass passed
  refine pass.forall_lines (isLasting_isSettled name) fun line inside => ?_
  exact .inr (made (.kept line) inside)

/-- After a run of sweeps every line is settled for every term of the run. -/
theorem Swept.isSettled {source text term : Text} {terms : List Text} {findings : List Finding}
    (swept : Swept source terms text findings) (name : IsName term) (member : term ∈ terms) :
    ∀ line ∈ lines text, IsSettled term line := by
  induction swept with
  | start => simp at member
  | @sweep terms text result latest findings inLines earlier passed inductionHypothesis =>
      rcases List.mem_append.mp member with before | last
      · have lasting := isLasting_isSettled name
        have between := forall_lines_methodPass lasting (inductionHypothesis before) latest
        exact forall_lines_linePass lasting between passed
      · rw [List.mem_singleton] at last
        subst latest
        exact isSettled_of_linePass name passed

theorem IsSettled.comment_or_declaration {term : Text} {line : Line}
    (settled : IsSettled term line) (name : IsName term)
    (proper : term ≠ ("if" : Text) ∧ term ≠ ("true" : Text)) (found : occurs term line = true) :
    isCommentOrImport line = true ∨ (Signature.parse? line).isSome = true := by
  rcases settled with placeholder | live
  · have word := word_of_isPlaceholder placeholder name found
    exact absurd word (not_or.mpr proper)
  · simpa [staysLive, found] using live

theorem name_of_mem_vocabulary {term : Text} (member : term ∈ vocabulary) :
    IsName term ∧ term ≠ ("if" : Text) ∧ term ≠ ("true" : Text) := by
  have all : ∀ term ∈ vocabulary, (term ≠ [] ∧ term.all isNameCharacter = true) ∧
      term ≠ ("if" : Text) ∧ term ≠ ("true" : Text) := by decide +kernel
  obtain ⟨⟨filled, characters⟩, proper⟩ := all term member
  exact ⟨⟨filled, List.all_eq_true.mp characters⟩, proper⟩

/-- No live line of the result uses a reflective name, be it a term of the vocabulary or a name
that became one during the run: a line that holds such a name is a comment, an import or the
declaration of a method. -/
theorem comment_or_declaration_of_remove {source term : Text} {removal : Removal} {line : Line}
    (removed : remove vocabulary source = .ok removal) (member : line ∈ lines removal.text)
    (reflective : term ∈ vocabulary ∨
      term ∈ removal.processed ∧ term ≠ ("if" : Text) ∧ term ≠ ("true" : Text))
    (found : occurs term line = true) :
    isCommentOrImport line = true ∨ (Signature.parse? line).isSome = true := by
  have follows := follows_of_remove removed
  have swept : term ∈ vocabulary ++ removal.processed := by
    rcases reflective with listed | ⟨processed, -⟩
    · exact List.mem_append_left _ listed
    · exact List.mem_append_right _ processed
  have name : IsName term ∧ term ≠ ("if" : Text) ∧ term ≠ ("true" : Text) := by
    rcases reflective with listed | ⟨processed, proper⟩
    · exact name_of_mem_vocabulary listed
    · have tainted := (mem_processed_of_remove removed term).mp processed
      exact ⟨(follows.name_of_mem tainted).1, proper⟩
  have settled := follows.swept.isSettled name.1 swept line member
  exact settled.comment_or_declaration name.1 name.2 found

/-- The variable of a removed line is reflective from then on, and a line that uses it is removed
as well. -/
theorem comment_or_declaration_of_assigned :
    ∃ removal, remove vocabulary "x=invoke();\nf(x);" = .ok removal ∧
      removal.processed = [("x" : Text)] ∧ ∃ line ∈ lines removal.text, occurs "f" line = true ∧
        occurs "x" line = true ∧
        (isCommentOrImport line = true ∨ (Signature.parse? line).isSome = true) := by
  have removed : remove vocabulary "x=invoke();\nf(x);" = .ok {
      text := "// x=invoke(); " ++ lineMarker ++ "\n// f(x); " ++ lineMarker
      findings := [.assigned "x", .codeLine "x=invoke();", .codeLine "f(x);"]
      processed := ["x"] } := by decide +kernel
  have member : ("// f(x); " ++ lineMarker : Text) ∈
      lines ("// x=invoke(); " ++ lineMarker ++ "\n// f(x); " ++ lineMarker) := by decide +kernel
  have found : occurs "x" ("// f(x); " ++ lineMarker) = true := by decide +kernel
  refine ⟨_, removed, rfl, _, member, by decide +kernel, found, ?_⟩
  exact comment_or_declaration_of_remove removed member (.inr (by decide)) found

end Unpacking.Reflection
