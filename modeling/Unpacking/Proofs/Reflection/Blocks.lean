import Unpacking.Proofs.Line.Depth
import Unpacking.Proofs.Reflection.Run

/-!
The block structure of a text under a removal. A line that is commented out is replaced by
placeholders with the same braces. A method that is commented out is a block by the braces of all
its lines, and lines that were commented out before count as well. So the live lines lose exactly
the braces that those lines hold in excess.
-/

namespace Unpacking.Reflection

open Text Line

/-! ### Braces of added lines -/

theorem braceCount_indentation (line : Line) : braceCount (indentation line) = 0 := by
  rw [braceCount, List.countP_eq_zero]
  intro c member
  have blank : isBlank c = true := List.mem_takeWhile_imp member
  have opening : c ≠ '{' := by
    rintro rfl
    exact absurd blank (by decide)
  have closing : c ≠ '}' := by
    rintro rfl
    exact absurd blank (by decide)
  simp [opening, closing]

theorem liveBalance_of_isPlaceholder {line : Line} (placeholder : isPlaceholder line = true) :
    liveBalance line = braceBalance line :=
  liveBalance_of_isCode (isLineComment_of_isPlaceholder placeholder)

theorem liveBalance_close (line : Line) :
    liveBalance (indentation line ++ ("\x7d" : Text)) = -1 := by
  rw [liveBalance_of_isPlaceholder (isPlaceholder_close line), braceBalance_append,
    braceBalance_of_braceCount (braceCount_indentation line)]
  decide

theorem liveBalance_open (line : Line) :
    liveBalance (indentation line ++ ("if (true) \x7b" : Text)) = 1 := by
  rw [liveBalance_of_isPlaceholder (isPlaceholder_open line), braceBalance_append,
    braceBalance_of_braceCount (braceCount_indentation line)]
  decide

/-- A line that is commented out leaves its brace, if it has one, to a placeholder. -/
theorem commentedLine_eq {line : Line} (single : braceCount line ≤ 1) :
    ∃ comment, isLineComment comment = true ∧
      (braceBalance line = 0 ∧ commentedLine line = [comment] ∨
        ∃ placeholder, commentedLine line = [comment, placeholder] ∧
          isPlaceholder placeholder = true ∧ liveBalance placeholder = braceBalance line) := by
  have bounds := braceBalance_bounds single
  have brace : braceBalance line = -1 ∨ braceBalance line = 0 ∨ braceBalance line = 1 := by omega
  refine ⟨"// " ++ line ++ " " ++ lineMarker, isLineComment_slashes _, ?_⟩
  rw [commentedLine, unmatchedBraces_of_braceCount single]
  rcases brace with closes | bare | opens
  · refine .inr ⟨_, ?_, isPlaceholder_close line, ?_⟩
    · rw [closes]
      rfl
    · rw [closes, liveBalance_close]
  · refine .inl ⟨bare, ?_⟩
    rw [bare]
    rfl
  · refine .inr ⟨_, ?_, isPlaceholder_open line, ?_⟩
    · rw [opens]
      rfl
    · rw [opens, liveBalance_open]

/-! ### Braces of spans -/

namespace Span

/-- The block of a method that is commented out. -/
def blocks : Span → List (List Line)
  | .removed method => [method.lines]
  | _ => []

/-- A span that holds whole blocks by the braces of all its lines, or a single brace. -/
def IsWhole : Span → Prop
  | .kept _ => True
  | .removed method => (method.lines.map braceBalance).sum = 0
  | .commented line _ => isLineComment line = false ∧ braceCount line ≤ 1

theorem liveBalance_after_removed (method : OpenMethod) :
    ∀ step ∈ (Span.removed method).after.map liveBalance, step = 0 := by
  intro step member
  simp only [after, List.map_append, List.map_map, List.mem_append, List.mem_map,
    Function.comp_apply, List.map_cons, List.map_nil, List.mem_singleton] at member
  rcases member with ⟨line, -, rfl⟩ | marker
  · exact liveBalance_of_isLineComment (isLineComment_methodLead line)
  · rw [marker]
    exact liveBalance_of_isLineComment isLineComment_methodMarker

/-- The live depth behind a span is off by the surplus of its blocks. -/
theorem sum_after {span : Span} (whole : span.IsWhole) :
    (span.after.map liveBalance).sum =
      (span.before.map liveBalance).sum + (span.blocks.map surplus).sum := by
  cases span with
  | kept line => simp [after, before, blocks]
  | removed method =>
      have total := sum_liveBalance_add_surplus method.lines
      have balanced : (method.lines.map braceBalance).sum = 0 := whole
      rw [List.sum_eq_zero (liveBalance_after_removed method)]
      simp only [before, blocks, List.map_cons, List.map_nil, List.sum_cons, List.sum_nil]
      omega
  | commented line assigned =>
      obtain ⟨isCode, single⟩ := whole
      have live := liveBalance_of_isCode isCode
      obtain ⟨comment, slashes, brace⟩ := commentedLine_eq single
      have still := liveBalance_of_isLineComment slashes
      rcases brace with ⟨bare, whole⟩ | ⟨placeholder, whole, -, same⟩
      · simp [after, before, blocks, whole, live, still, bare]
      · simp [after, before, blocks, whole, live, still, same]

theorem neverNegative_after {span : Span} (whole : span.IsWhole) {depth : Int}
    (never : NeverNegative depth (span.before.map liveBalance)) :
    NeverNegative depth (span.after.map liveBalance) := by
  cases span with
  | kept line => exact never
  | removed method =>
      exact neverNegative_of_forall_zero never.nonneg (liveBalance_after_removed method)
  | commented line assigned =>
      obtain ⟨isCode, single⟩ := whole
      rw [before, List.map_singleton, liveBalance_of_isCode isCode] at never
      obtain ⟨comment, slashes, brace⟩ := commentedLine_eq single
      have still := liveBalance_of_isLineComment slashes
      rcases brace with ⟨-, whole⟩ | ⟨placeholder, whole, -, same⟩
      · rw [after, whole, List.map_singleton, still, neverNegative_zero_cons]
        exact never.nonneg
      · rw [after, whole, List.map_cons, List.map_singleton, still, same, neverNegative_zero_cons]
        exact never

/-- A span leaves no line with two braces where there was none. -/
theorem braceCount_after {span : Span} (single : ∀ line ∈ span.before, braceCount line ≤ 1) :
    ∀ line ∈ span.after, braceCount line ≤ 1 := by
  intro added member
  cases span with
  | kept line => exact single added member
  | removed method =>
      have lead : braceCount methodLead = 0 := by decide +kernel
      simp only [after, List.mem_append, List.mem_map, List.mem_singleton] at member
      rcases member with ⟨line, inside, rfl⟩ | marker
      · rw [braceCount_append, lead, Nat.zero_add]
        exact single line inside
      · rw [marker]
        decide +kernel
  | commented line assigned =>
      have slashes : braceCount ("// " : Text) = 0 := by decide
      have blank : braceCount (" " : Text) = 0 := by decide
      have trailer : braceCount lineMarker = 0 := by decide +kernel
      have closing : braceCount ("\x7d" : Text) = 1 := by decide
      have opening : braceCount ("if (true) \x7b" : Text) = 1 := by decide
      have own := single line (by simp [before])
      have blanks := braceCount_indentation line
      simp only [after, commentedLine, List.mem_append, List.mem_singleton,
        List.mem_replicate] at member
      rcases member with (rfl | ⟨-, rfl⟩) | ⟨-, rfl⟩
      · simp only [braceCount_append]
        omega
      · rw [braceCount_append]
        omega
      · rw [braceCount_append]
        omega

end Span

/-- The second pass comments out no method. -/
theorem blocks_of_ofLines {term : Text} {span : Span} (made : span.OfLines term) :
    span.blocks = [] := by
  cases span with
  | kept line => rfl
  | removed method => exact made.elim
  | commented line assigned => rfl

theorem isWhole_of_ofLines {term : Text} {span : Span} (made : span.OfLines term)
    (single : ∀ line ∈ span.before, braceCount line ≤ 1) : span.IsWhole := by
  cases span with
  | kept line => trivial
  | removed method => exact made.elim
  | commented line assigned =>
      have isCode := isCommentOrImport_of_staysLive made.1
      exact ⟨isLineComment_of_isCommentOrImport isCode, single line (by simp [Span.before])⟩

/-- The braces of all lines delimit a method that is commented out. -/
theorem isWhole_of_mem_methodSpans {term text : Text} {span : Span}
    (single : ∀ line ∈ lines text, braceCount line ≤ 1)
    (member : span ∈ methodSpans term text) : span.IsWhole := by
  have made := @ofMethods_of_mem_spansFrom term none (lines text) span
    (fun method => method.depth = (method.lines.map braceBalance).sum ∧ 0 ≤ method.depth)
    (fun line inside method opened => by
      obtain ⟨-, signature, declared, opens, rfl⟩ := openMethod?_eq_some opened
      have step := braceBalance_of_mem (single line inside)
        (Signature.mem_of_opensBlock declared opens)
      simp [step])
    (fun line inside method held positive => by
      have bounds := braceBalance_bounds (single line inside)
      simp only [OpenMethod.extend, List.map_append, List.map_cons, List.map_nil, List.sum_append,
        List.sum_cons, List.sum_nil]
      omega)
    (by simp) member
  cases span with
  | kept line => trivial
  | removed method =>
      obtain ⟨⟨depth, nonneg⟩, closed, -⟩ := made
      change (method.lines.map braceBalance).sum = 0
      omega
  | commented line assigned => exact made.elim

/-! ### Braces of a pass -/

/-- The depths behind a pass, span by span. -/
theorem Pass.liveSteps_eq {text result : Text} {spans : List Span} {found : List Finding}
    (pass : Pass text spans result found) :
    liveSteps text = spans.flatMap (fun span => span.before.map liveBalance) ∧
      liveSteps result = spans.flatMap (fun span => span.after.map liveBalance) := by
  constructor
  · rw [liveSteps, ← pass.covers, List.map_flatMap]
  · rw [liveSteps, pass.written, map_readBack liveBalance_append_return, List.map_flatMap]

theorem Pass.sum_liveSteps {text result : Text} {spans : List Span} {found : List Finding}
    (pass : Pass text spans result found) (whole : ∀ span ∈ spans, span.IsWhole) :
    (liveSteps result).sum =
      (liveSteps text).sum + ((spans.flatMap Span.blocks).map surplus).sum := by
  rw [pass.liveSteps_eq.1, pass.liveSteps_eq.2]
  clear pass
  induction spans with
  | nil => rfl
  | cons span spans inductionHypothesis =>
      have first := Span.sum_after (whole span (by simp))
      have others := inductionHypothesis fun other member => whole other (by simp [member])
      simp only [List.flatMap_cons, List.map_append, List.sum_append]
      omega

theorem Pass.neverNegative {text result : Text} {spans : List Span} {found : List Finding}
    (pass : Pass text spans result found) (whole : ∀ span ∈ spans, span.IsWhole)
    (even : ∀ block ∈ spans.flatMap Span.blocks, surplus block = 0)
    (never : NeverNegative 0 (liveSteps text)) : NeverNegative 0 (liveSteps result) := by
  rw [pass.liveSteps_eq.1] at never
  rw [pass.liveSteps_eq.2]
  refine neverNegative_flatMap ?_ ?_ never
  · intro span inside depth
    exact Span.neverNegative_after (whole span inside)
  · intro span inside
    have evenSpan : (span.blocks.map surplus).sum = 0 := by
      refine List.sum_eq_zero fun excess member => ?_
      obtain ⟨block, inBlocks, rfl⟩ := List.mem_map.mp member
      exact even block (List.mem_flatMap.mpr ⟨span, inside, inBlocks⟩)
    rw [Span.sum_after (whole span inside), evenSpan, Int.add_zero]

theorem Pass.braceCount_le {text result : Text} {spans : List Span} {found : List Finding}
    (pass : Pass text spans result found) (single : ∀ line ∈ lines text, braceCount line ≤ 1) :
    ∀ line ∈ lines result, braceCount line ≤ 1 := by
  refine pass.forall_lines_of_after ?_ fun span inside => ?_
  · intro line shortened
    rwa [braceCount_append_return] at shortened
  · exact Span.braceCount_after fun line covered => single line (pass.mem_lines inside covered)

end Unpacking.Reflection
