import Unpacking.Proofs.Reflection.Soundness

/-!
A removal of its own result. The first run leaves no line that a sweep for the vocabulary can hit,
and the declarations that stay return nothing on their own line. So every sweep of a second run
gives its text back, however the braces of the result delimit its methods.
-/

namespace Unpacking.Reflection

open Text Line

/-! ### Sweeps that find nothing -/

/-- A line that makes no method reflective for a term, whether it opens or continues one. -/
structure IsQuiet (term : Text) (line : Line) : Prop where
  opening : ∀ method, openMethod? term line = some method → method.isReflective = false
  inside : returnsTerm term line = false

theorem IsQuiet.advance {term : Text} {line : Line} {current : Option OpenMethod}
    {method : OpenMethod} (quiet : IsQuiet term line)
    (harmless : ∀ method, current = some method → method.isReflective = false)
    (next : advance term current line = some method) : method.isReflective = false := by
  cases current with
  | none => exact quiet.opening method next
  | some taken =>
      rw [Reflection.advance, Option.some.injEq] at next
      rw [← next, OpenMethod.extend, harmless taken rfl, quiet.inside]
      rfl

/-- The first pass keeps every line when all of them are quiet. -/
theorem kept_of_mem_spansFrom {term : Text} {current : Option OpenMethod} {lines : List Line}
    (quiet : ∀ line ∈ lines, IsQuiet term line)
    (harmless : ∀ method, current = some method → method.isReflective = false) :
    ∀ span ∈ spansFrom term current lines, ∃ line, span = .kept line := by
  fun_induction spansFrom term current lines with
  | case1 => simp
  | case2 method => simp
  | case3 current line rest stays inductionHypothesis =>
      have others := inductionHypothesis (fun other member => quiet other (by simp [member]))
        (by simp)
      exact List.forall_mem_cons.mpr ⟨⟨line, rfl⟩, others⟩
  | case4 current line rest method next closed inductionHypothesis =>
      have others := inductionHypothesis (fun other member => quiet other (by simp [member]))
        (by simp)
      have unreflective := (quiet line (by simp)).advance harmless next
      intro span member
      rcases List.mem_append.mp member with here | later
      · simp only [OpenMethod.spans, unreflective, Bool.false_eq_true, if_false] at here
        obtain ⟨inside, -, rfl⟩ := List.mem_map.mp here
        exact ⟨inside, rfl⟩
      · exact others span later
  | case5 current line rest method next stillOpen inductionHypothesis =>
      refine inductionHypothesis (fun other member => quiet other (by simp [member])) ?_
      intro other same
      rw [Option.some.injEq] at same
      exact same ▸ (quiet line (by simp)).advance harmless next

theorem eq_map_kept {spans : List Span} (kept : ∀ span ∈ spans, ∃ line, span = .kept line) :
    spans = (spans.flatMap Span.before).map .kept := by
  induction spans with
  | nil => rfl
  | cons span rest inductionHypothesis =>
      obtain ⟨line, rfl⟩ := kept span (by simp)
      have others := inductionHypothesis fun other member => kept other (by simp [member])
      simpa [Span.before] using others

theorem methodPass_of_isQuiet {term text : Text}
    (quiet : ∀ line ∈ lines text, IsQuiet term line) :
    methodPass term text = (unlines (lines text) (endsWithNewline text), []) := by
  have kept : ∀ span ∈ spansFrom term none (lines text), ∃ line, span = .kept line :=
    kept_of_mem_spansFrom quiet (by simp)
  have spans := eq_map_kept kept
  rw [flatMap_before_spansFrom, takenLines, List.nil_append] at spans
  rw [methodPass_eq, methodSpans, spans, flatMap_after_kept, flatMap_findings_kept]

theorem linePass_of_staysLive {term text : Text}
    (live : ∀ line ∈ lines text, staysLive term line = true) :
    linePass term text = .ok (unlines (lines text) (endsWithNewline text), []) := by
  have swept : ∀ {lines : List Line}, (∀ line ∈ lines, staysLive term line = true) →
      sweepLines term lines = .ok (lines, []) := by
    intro lines live
    induction lines with
    | nil => rfl
    | cons line rest inductionHypothesis =>
        have first : sweepLine term line = .ok ([line], []) := by
          rw [sweepLine, if_pos (live line (by simp))]
        have others := inductionHypothesis fun other member => live other (by simp [member])
        rw [sweepLines, first, others]
        rfl
  rw [linePass, swept live]

/-- A text that a term leaves alone. -/
structure IsFixed (term text : Text) : Prop where
  quiet : ∀ line ∈ lines text, IsQuiet term line
  live : ∀ line ∈ lines text, staysLive term line = true

theorem sweep_of_isFixed {term text : Text} (plain : '\r' ∉ text) (fixed : IsFixed term text) :
    ({ text } : Removal).sweep term = .ok { text } := by
  simp only [Removal.sweep, methodPass_of_isQuiet fixed.quiet, unlines_lines plain,
    linePass_of_staysLive fixed.live]
  rfl

/-- A removal whose terms all leave the text alone finds nothing. -/
theorem remove_of_isFixed {terms : List Text} {text : Text} (plain : '\r' ∉ text)
    (fixed : ∀ term ∈ terms, IsFixed term text) : remove terms text = .ok { text } := by
  have swept : ({ text } : Removal).sweepAll terms = .ok { text } := by
    induction terms with
    | nil => rfl
    | cons term rest inductionHypothesis =>
        rw [Removal.sweepAll_cons, sweep_of_isFixed plain (fixed term (by simp))]
        exact inductionHypothesis fun other member => fixed other (by simp [member])
  rw [remove_eq_drain swept]
  rfl

/-! ### The result of a removal -/

/-- A line that returns at its beginning or right behind its first opening brace. -/
def returnsAtOnce (line : Line) : Bool :=
  begins "return" (trimStart line) ||
    (cut? '{' line).any fun parts => begins "return" (trimStart parts.2)

theorem returnsAtOnce_append_return (line : Line) :
    returnsAtOnce (line ++ ['\r']) = returnsAtOnce line := by
  have free : '\r' ∉ ("return" : Text) := by decide
  rw [returnsAtOnce, returnsAtOnce, begins_trimStart_append_return free,
    cut?_append_return (by decide), Option.any_map]
  simp only [begins_trimStart_append_return free]

/-- A declaration, if it is one, that does not return on its own line. -/
def DeclaresOnly (line : Line) : Prop :=
  isCommentOrImport line = false → (Signature.parse? line).isSome = true →
    returnsAtOnce line = false

theorem isLasting_declaresOnly : IsLasting DeclaresOnly where
  comment := by
    intro line comment isCode
    rw [isCommentOrImport_of_isLineComment comment] at isCode
    exact absurd isCode (by decide)
  placeholder := by
    intro line placeholder _ declared
    rw [parse?_of_isPlaceholder placeholder] at declared
    exact absurd declared (by decide)
  shortened := by
    intro line longer isCode declared
    rw [DeclaresOnly, isCommentOrImport_append_return, Signature.parse?_append_return,
      returnsAtOnce_append_return] at longer
    exact longer isCode declared

/-- A settled line stays for every proper name. -/
theorem IsSettled.staysLive {term : Text} {line : Line} (settled : IsSettled term line)
    (name : IsName term) (proper : term ≠ ("if" : Text) ∧ term ≠ ("true" : Text)) :
    staysLive term line = true := by
  rcases settled with placeholder | live
  · have absent : occurs term line = false := by
      rw [Bool.eq_false_iff]
      intro found
      exact not_or.mpr proper (word_of_isPlaceholder placeholder name found)
    simp [Reflection.staysLive, absent]
  · exact live

/-- A line that stays makes no method reflective, unless it is a declaration that returns. -/
theorem isQuiet_of_staysLive {term : Text} {line : Line} (live : staysLive term line = true)
    (declares : DeclaresOnly line) : IsQuiet term line where
  opening := by
    intro method opened
    obtain ⟨isCode, signature, declared, -, rfl⟩ := openMethod?_eq_some opened
    have unreturned := declares isCode (by simp [declared])
    simp only [returnsAtOnce, Bool.or_eq_false_iff] at unreturned
    cases split : cut? '{' line with
    | none => simp only [returnsInline, split]
    | some parts =>
        have behind : begins "return" (trimStart parts.2) = false := by
          simpa [split] using unreturned.2
        simp only [returnsInline, split, behind, Bool.false_and]
  inside := by
    rw [Bool.eq_false_iff]
    intro returns
    simp only [returnsTerm, Bool.and_eq_true, Bool.not_eq_true'] at returns
    obtain ⟨⟨isCode, front⟩, found⟩ := returns
    have declared : (Signature.parse? line).isSome = true := by
      simpa [staysLive, isCode, found] using live
    have unreturned := declares isCode declared
    rw [returnsAtOnce, front, Bool.true_or] at unreturned
    exact Bool.noConfusion unreturned

/-- A second removal changes nothing: for a source without carriage returns whose declarations do
not return on their own line, the removal of the result gives the result back, and it finds,
processes and logs nothing. -/
theorem remove_text_of_remove {source : Text} {removal : Removal} (plain : '\r' ∉ source)
    (declares : ∀ line ∈ lines source, (Signature.parse? line).isSome = true →
      returnsAtOnce line = false)
    (removed : remove vocabulary source = .ok removal) :
    ∃ again, remove vocabulary removal.text = .ok again ∧ again.text = removal.text ∧
      again.removedMethods = [] ∧ again.commentedLines = 0 ∧ again.tainted = [] ∧
      again.processed = [] ∧ again.log = [] := by
  have swept := (follows_of_remove removed).swept
  have declaresOnly : ∀ line ∈ lines removal.text, DeclaresOnly line :=
    swept.forall_lines isLasting_declaresOnly fun line member _ => declares line member
  have fixed : ∀ term ∈ vocabulary, IsFixed term removal.text := by
    intro term listed
    obtain ⟨name, proper⟩ := name_of_mem_vocabulary listed
    have settled := swept.isSettled name (List.mem_append_left _ listed)
    have live : ∀ line ∈ lines removal.text, staysLive term line = true :=
      fun line member => (settled line member).staysLive name proper
    exact ⟨fun line member => isQuiet_of_staysLive (live line member) (declaresOnly line member),
      live⟩
  exact ⟨_, remove_of_isFixed (swept.return_not_mem plain) fixed, rfl, rfl, rfl, rfl, rfl, rfl⟩

/-- A method and an assignment are removed in the first run, and nothing in the second. -/
theorem remove_text_of_remove_method :
    ∃ removal again, remove vocabulary "X m() \x7b\nreturn invoke();\n\x7d\nx=m();" = .ok removal ∧
      removal.hits = 2 ∧ remove vocabulary removal.text = .ok again ∧
      again.text = removal.text ∧ again.log = [] := by
  have run : (remove vocabulary "X m() \x7b\nreturn invoke();\n\x7d\nx=m();").map Removal.hits =
      .ok 2 := by decide +kernel
  obtain ⟨removal, removed, hits⟩ := exists_remove_of_map run
  obtain ⟨again, second, same, -, -, -, -, silent⟩ :=
    remove_text_of_remove (by decide +kernel) (by decide +kernel) removed
  exact ⟨removal, again, removed, hits, second, same, silent⟩

end Unpacking.Reflection
