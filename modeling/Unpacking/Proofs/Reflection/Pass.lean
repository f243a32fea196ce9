import Unpacking.Proofs.Reflection.Placeholder
import Unpacking.Proofs.Text.Lines

/-!
The two passes of a sweep. Either of them cuts a text into spans, and replaces each span on its
own: a line that stays, a method that is commented out, or a line that is commented out.
-/

namespace Unpacking.Reflection

open Text Line

/-- A part of a text for a pass. -/
inductive Span where
  /-- A line that stays. -/
  | kept (line : Line)
  /-- A method that is commented out. -/
  | removed (method : OpenMethod)
  /-- A line that is commented out, and the variable that it assigns from the term. -/
  | commented (line : Line) (assigned : Option Text)

namespace Span

/-- The lines that a span covers. -/
def before : Span → List Line
  | .kept line => [line]
  | .removed method => method.lines
  | .commented line _ => [line]

/-- The lines that stand for a span. -/
def after : Span → List Line
  | .kept line => [line]
  | .removed method => method.lines.map (methodLead ++ ·) ++ [methodMarker]
  | .commented line _ => commentedLine line

/-- What a pass finds in a span. -/
def findings : Span → List Finding
  | .kept _ => []
  | .removed method => [.method method.name]
  | .commented line none => [.codeLine line]
  | .commented line (some name) => [.assigned name, .codeLine line]

end Span

/-- The first line of a method is a line of code that declares it. -/
def OpenMethod.Begun (method : OpenMethod) : Prop :=
  ∃ head body signature, method.lines = head :: body ∧ isCommentOrImport head = false ∧
    Signature.parse? head = some signature ∧ method.name = signature.name

/-- A span of the first pass: a line that stays, or a method with a property. -/
def Span.OfMethods (property : OpenMethod → Prop) : Span → Prop
  | .kept _ => True
  | .removed method => property method
  | .commented _ _ => False

/-- A span of the second pass: a line that may stay, or one that may not. -/
def Span.OfLines (term : Text) : Span → Prop
  | .kept line => staysLive term line = true
  | .removed _ => False
  | .commented line assigned =>
    staysLive term line = false ∧ taintedVariable? term line = .ok assigned

/-- A pass cuts a text into spans, and puts together what stands for them and what is found. -/
structure Pass (text : Text) (spans : List Span) (result : Text) (found : List Finding) : Prop where
  covers : spans.flatMap Span.before = lines text
  written : lines result = readBack (endsWithNewline text) (spans.flatMap Span.after)
  reported : found = spans.flatMap Span.findings

/-- The texts that a pass puts around a line or behind it. -/
def addedTexts : List Text :=
  [methodLead, methodMarker, "// ", " ", lineMarker, "\x7d", "if (true) \x7b"]

/-- A character that no pass adds. -/
def IsForeign (c : Char) : Prop :=
  ∀ added ∈ addedTexts, c ∉ added

theorem isForeign_newline : IsForeign '\n' := by
  unfold IsForeign
  decide +kernel

theorem isForeign_return : IsForeign '\r' := by
  unfold IsForeign
  decide +kernel

theorem IsForeign.not_mem {c : Char} {added : Text} (foreign : IsForeign c)
    (listed : added ∈ addedTexts) : c ∉ added :=
  foreign added listed

theorem not_mem_of_mem_commentedLine {c : Char} {line added : Line} (foreign : IsForeign c)
    (absent : c ∉ line) (member : added ∈ commentedLine line) : c ∉ added := by
  have indented : c ∉ indentation line := fun inside =>
    absent ((List.takeWhile_prefix _).mem inside)
  have lead : c ∉ ("// " : Text) := foreign.not_mem (by simp [addedTexts])
  have blank : c ∉ (" " : Text) := foreign.not_mem (by simp [addedTexts])
  have trailer : c ∉ lineMarker := foreign.not_mem (by simp [addedTexts])
  have closing : c ∉ ("\x7d" : Text) := foreign.not_mem (by simp [addedTexts])
  have opening : c ∉ ("if (true) \x7b" : Text) := foreign.not_mem (by simp [addedTexts])
  simp only [commentedLine, List.mem_append, List.mem_singleton, List.mem_replicate] at member
  rcases member with (rfl | ⟨-, rfl⟩) | ⟨-, rfl⟩
  · simp only [List.mem_append, absent, lead, blank, trailer, or_self, not_false_eq_true]
  · simp only [List.mem_append, indented, closing, or_self, not_false_eq_true]
  · simp only [List.mem_append, indented, opening, or_self, not_false_eq_true]

namespace Span

/-- A character that no pass adds is on no line behind a span, if it was on none before. -/
theorem not_mem_of_mem_after {c : Char} {span : Span} {added : Line} (foreign : IsForeign c)
    (absent : ∀ line ∈ span.before, c ∉ line) (member : added ∈ span.after) : c ∉ added := by
  cases span with
  | kept line => exact absent added member
  | removed method =>
      simp only [after, List.mem_append, List.mem_map, List.mem_singleton] at member
      rcases member with ⟨line, inside, same⟩ | same
      · have lead : c ∉ methodLead := foreign.not_mem (by simp [addedTexts])
        rw [← same, List.mem_append, not_or]
        exact ⟨lead, absent line inside⟩
      · rw [same]
        exact foreign.not_mem (by simp [addedTexts])
  | commented line assigned =>
      exact not_mem_of_mem_commentedLine foreign (absent line (by simp [before])) member

theorem after_ne_nil (span : Span) : span.after ≠ [] := by
  cases span <;> simp [after, commentedLine]

/-- A pass leaves no empty line behind where there was none. -/
theorem getLast?_after {span : Span} (filled : span.before.getLast? ≠ some []) :
    span.after.getLast? ≠ some [] := by
  cases span with
  | kept line => exact filled
  | removed method =>
      rw [after, List.getLast?_concat, ne_eq, Option.some.injEq]
      intro empty
      exact absurd (empty ▸ isLineComment_methodMarker) (by decide)
  | commented line assigned =>
      intro last
      have member : [] ∈ commentedLine line := List.mem_of_getLast? last
      simp [commentedLine] at member

/-- What a pass writes is a line that stays, a comment or a placeholder. -/
theorem mem_after {span : Span} {added : Line} (member : added ∈ span.after) :
    span = .kept added ∨ isLineComment added = true ∨ isPlaceholder added = true := by
  cases span with
  | kept line => exact .inl (by rw [List.mem_singleton.mp member])
  | removed method =>
      simp only [after, List.mem_append, List.mem_map, List.mem_singleton] at member
      rcases member with ⟨line, -, rfl⟩ | marker
      · exact .inr (.inl (isLineComment_methodLead line))
      · exact .inr (.inl (marker ▸ isLineComment_methodMarker))
  | commented line assigned => exact .inr (mem_commentedLine member)

end Span

/-- A pass with no empty span is carried out by writing the lines that stand for its spans. -/
theorem Pass.of_unlines {text : Text} {spans : List Span}
    (covers : spans.flatMap Span.before = lines text)
    (filled : ∀ span ∈ spans, span.before ≠ []) :
    Pass text spans (unlines (spans.flatMap Span.after) (endsWithNewline text))
      (spans.flatMap Span.findings) where
  covers := covers
  written := lines_unlines <| IsCut.flatMap (covers ▸ isCut_lines text)
    (fun _ _ unbroken _ member => Span.not_mem_of_mem_after isForeign_newline unbroken member)
    (fun _ _ last => Span.getLast?_after last)
    (fun span inside => ⟨filled span inside, span.after_ne_nil⟩)
  reported := rfl

theorem Pass.mem_lines {text result : Text} {spans : List Span} {found : List Finding} {span : Span}
    {line : Line} (pass : Pass text spans result found) (inside : span ∈ spans)
    (covered : line ∈ span.before) : line ∈ lines text := by
  rw [← pass.covers]
  exact List.mem_flatMap.mpr ⟨span, inside, covered⟩

/-- A property of lines that no pass can break: the lines that are added have it, and it stays
when a line loses a carriage return. -/
structure IsLasting (property : Line → Prop) : Prop where
  comment : ∀ line, isLineComment line = true → property line
  placeholder : ∀ line, isPlaceholder line = true → property line
  shortened : ∀ line, property (line ++ ['\r']) → property line

/-- A property that every span leaves behind holds of all lines that a pass writes. -/
theorem Pass.forall_lines_of_after {text result : Text} {spans : List Span} {found : List Finding}
    {property : Line → Prop} (pass : Pass text spans result found)
    (shortened : ∀ line, property (line ++ ['\r']) → property line)
    (left : ∀ span ∈ spans, ∀ line ∈ span.after, property line) :
    ∀ line ∈ lines result, property line := by
  intro line member
  rw [pass.written] at member
  obtain ⟨written, inside, related⟩ := mem_readBack member
  obtain ⟨span, inSpans, inAfter⟩ := List.mem_flatMap.mp inside
  have holds := left span inSpans written inAfter
  rcases related with rfl | longer
  · exact holds
  · exact shortened line (longer ▸ holds)

/-- A lasting property of the lines that stay holds of all lines that a pass writes. -/
theorem Pass.forall_lines {text result : Text} {spans : List Span} {found : List Finding}
    {property : Line → Prop} (pass : Pass text spans result found) (lasting : IsLasting property)
    (kept : ∀ line, Span.kept line ∈ spans → property line) :
    ∀ line ∈ lines result, property line := by
  refine pass.forall_lines_of_after lasting.shortened fun span inside line member => ?_
  rcases Span.mem_after member with rfl | comment | placeholder
  · exact kept line inside
  · exact lasting.comment line comment
  · exact lasting.placeholder line placeholder

/-! ### The first pass -/

/-- The spans of a method whose block has closed. -/
def OpenMethod.spans (method : OpenMethod) : List Span :=
  if method.isReflective then [.removed method] else method.lines.map .kept

/-- The open method behind a further line, if there is one. -/
def advance (term : Text) (current : Option OpenMethod) (line : Line) : Option OpenMethod :=
  match current with
  | none => openMethod? term line
  | some method => some (method.extend term line)

/-- The spans from a line on. A method that never closes stays. -/
def spansFrom (term : Text) : Option OpenMethod → List Line → List Span
  | none, [] => []
  | some method, [] => method.lines.map .kept
  | current, line :: rest =>
    match advance term current line with
    | none => .kept line :: spansFrom term none rest
    | some method =>
      if method.depth ≤ 0 then method.spans ++ spansFrom term none rest
      else spansFrom term (some method) rest

/-- The spans of a text for the first pass. -/
def methodSpans (term text : Text) : List Span :=
  spansFrom term none (lines text)

theorem flatMap_before_kept (lines : List Line) :
    (lines.map Span.kept).flatMap Span.before = lines := by
  simp [List.flatMap_map, Span.before]

theorem flatMap_after_kept (lines : List Line) :
    (lines.map Span.kept).flatMap Span.after = lines := by
  simp [List.flatMap_map, Span.after]

theorem flatMap_findings_kept (lines : List Line) :
    (lines.map Span.kept).flatMap Span.findings = [] := by
  simp [List.flatMap_map, Span.findings]

theorem flatMap_before_spans (method : OpenMethod) :
    method.spans.flatMap Span.before = method.lines := by
  unfold OpenMethod.spans
  split
  · simp [Span.before]
  · exact flatMap_before_kept method.lines

theorem close_eq (method : OpenMethod) :
    method.close = (method.spans.flatMap Span.after, method.spans.flatMap Span.findings) := by
  unfold OpenMethod.close OpenMethod.spans
  split
  · simp [Span.after, Span.findings]
  · rw [flatMap_after_kept, flatMap_findings_kept]

/-- A method is opened by a line of code that declares it. -/
theorem openMethod?_eq_some {term : Text} {line : Line} {method : OpenMethod}
    (opened : openMethod? term line = some method) :
    isCommentOrImport line = false ∧ ∃ signature, Signature.parse? line = some signature ∧
      signature.opensBlock = true ∧
      method = {
        name := signature.name
        lines := [line]
        depth := braceBalance line
        isReflective := returnsInline term line } := by
  unfold openMethod? at opened
  split at opened
  · simp at opened
  · rename_i isCode
    split at opened
    · rename_i signature declared
      split at opened
      · rename_i opens
        rw [Option.some.injEq] at opened
        exact ⟨by simpa using isCode, signature, declared, opens, opened.symm⟩
      · simp at opened
    · simp at opened

/-- The lines that an open method has taken. -/
def takenLines : Option OpenMethod → List Line
  | none => []
  | some method => method.lines

theorem takenLines_advance (term : Text) (current : Option OpenMethod) (line : Line) :
    advance term current line = none ∧ current = none ∨
      takenLines (advance term current line) = takenLines current ++ [line] := by
  cases current with
  | some method => exact .inr rfl
  | none =>
      cases opened : advance term none line with
      | none => exact .inl ⟨rfl, rfl⟩
      | some method =>
          obtain ⟨-, signature, -, -, rfl⟩ := openMethod?_eq_some opened
          exact .inr rfl

/-- The spans cover the lines in order. -/
theorem flatMap_before_spansFrom (term : Text) (current : Option OpenMethod) (lines : List Line) :
    (spansFrom term current lines).flatMap Span.before = takenLines current ++ lines := by
  fun_induction spansFrom term current lines with
  | case1 => rfl
  | case2 method => simpa [takenLines] using flatMap_before_kept method.lines
  | case3 current line rest stays inductionHypothesis =>
      obtain ⟨-, rfl⟩ := (takenLines_advance term current line).resolve_right (by
        rw [stays]
        simp [takenLines])
      rw [List.flatMap_cons, inductionHypothesis]
      rfl
  | case4 current line rest method extended closed inductionHypothesis =>
      have taken := (takenLines_advance term current line).resolve_left (by simp [extended])
      rw [extended] at taken
      rw [List.flatMap_append, flatMap_before_spans, inductionHypothesis]
      simp only [takenLines] at taken ⊢
      rw [taken]
      simp
  | case5 current line rest method extended closed inductionHypothesis =>
      have taken := (takenLines_advance term current line).resolve_left (by simp [extended])
      rw [extended] at taken
      rw [inductionHypothesis, taken]
      simp

theorem sweepMethods_cons (term : Text) (current : Option OpenMethod) (line : Line)
    (rest : List Line) :
    sweepMethods term current (line :: rest) =
      match advance term current line with
      | none => (line :: (sweepMethods term none rest).1, (sweepMethods term none rest).2)
      | some method =>
        if method.depth ≤ 0 then
          (method.close.1 ++ (sweepMethods term none rest).1,
            method.close.2 ++ (sweepMethods term none rest).2)
        else sweepMethods term (some method) rest := by
  cases current <;> rfl

/-- The first pass replaces each span and reports what it finds there. -/
theorem sweepMethods_eq (term : Text) (current : Option OpenMethod) (lines : List Line) :
    sweepMethods term current lines =
      ((spansFrom term current lines).flatMap Span.after,
        (spansFrom term current lines).flatMap Span.findings) := by
  fun_induction spansFrom term current lines with
  | case1 => rfl
  | case2 method => rw [flatMap_after_kept, flatMap_findings_kept, sweepMethods]
  | case3 current line rest stays inductionHypothesis =>
      rw [sweepMethods_cons, stays]
      simp only [inductionHypothesis, List.flatMap_cons]
      rfl
  | case4 current line rest method extended closed inductionHypothesis =>
      rw [sweepMethods_cons, extended]
      simp only [closed, if_true, inductionHypothesis, List.flatMap_append, close_eq]
  | case5 current line rest method extended closed inductionHypothesis =>
      rw [sweepMethods_cons, extended]
      simp only [closed, if_false, inductionHypothesis]

theorem Span.ofMethods_of_mem_kept {property : OpenMethod → Prop} {taken : List Line} {span : Span}
    (member : span ∈ taken.map Span.kept) : span.OfMethods property := by
  obtain ⟨line, -, rfl⟩ := List.mem_map.mp member
  trivial

theorem OpenMethod.ofMethods_of_mem_spans {property : OpenMethod → Prop} {method : OpenMethod}
    {span : Span} (holds : method.isReflective = true → property method)
    (member : span ∈ method.spans) : span.OfMethods property := by
  unfold OpenMethod.spans at member
  split at member
  · rename_i reflective
    obtain rfl := List.mem_singleton.mp member
    exact holds reflective
  · exact Span.ofMethods_of_mem_kept member

/-- What a method has from its first line on, every method that is commented out has. -/
theorem ofMethods_of_mem_spansFrom {term : Text} {current : Option OpenMethod}
    {lines : List Line} {span : Span} {invariant : OpenMethod → Prop}
    (opened : ∀ line ∈ lines, ∀ method, openMethod? term line = some method → invariant method)
    (extended : ∀ line ∈ lines, ∀ method, invariant method → 0 < method.depth →
      invariant (method.extend term line))
    (start : ∀ method, current = some method → invariant method ∧ 0 < method.depth)
    (member : span ∈ spansFrom term current lines) :
    span.OfMethods fun method =>
      invariant method ∧ method.depth ≤ 0 ∧ method.isReflective = true := by
  have advanced (current : Option OpenMethod) (line : Line) (method : OpenMethod)
      (inLines : line ∈ lines)
      (start : ∀ method, current = some method → invariant method ∧ 0 < method.depth)
      (next : advance term current line = some method) : invariant method := by
    cases current with
    | none => exact opened line inLines method next
    | some taken =>
        rw [advance, Option.some.injEq] at next
        obtain ⟨held, positive⟩ := start taken rfl
        exact next ▸ extended line inLines taken held positive
  clear opened extended
  fun_induction spansFrom term current lines with
  | case1 => simp at member
  | case2 method => exact Span.ofMethods_of_mem_kept member
  | case3 current line rest notOpened inductionHypothesis =>
      rcases List.mem_cons.mp member with rfl | later
      · trivial
      · exact inductionHypothesis (by simp) later
          fun current other method inRest => advanced current other method (by simp [inRest])
  | case4 current line rest closing next closed inductionHypothesis =>
      rcases List.mem_append.mp member with here | later
      · have held := advanced current line closing (by simp) start next
        exact closing.ofMethods_of_mem_spans (fun reflective => ⟨held, closed, reflective⟩) here
      · exact inductionHypothesis (by simp) later
          fun current other method inRest => advanced current other method (by simp [inRest])
  | case5 current line rest method next stillOpen inductionHypothesis =>
      have held := advanced current line method (by simp) start next
      refine inductionHypothesis (fun other same => ?_) member
        fun current other method inRest => advanced current other method (by simp [inRest])
      rw [Option.some.injEq] at same
      exact same ▸ ⟨held, Int.not_le.mp stillOpen⟩

theorem Span.OfMethods.imp {property weaker : OpenMethod → Prop} {span : Span}
    (made : span.OfMethods property) (implies : ∀ method, property method → weaker method) :
    span.OfMethods weaker := by
  cases span with
  | kept line => trivial
  | removed method => exact implies method made
  | commented line assigned => exact made

/-- Every method that the first pass comments out begins with its declaration. -/
theorem begun_of_mem_methodSpans {term text : Text} {span : Span}
    (member : span ∈ methodSpans term text) : span.OfMethods OpenMethod.Begun := by
  have made := @ofMethods_of_mem_spansFrom term none (lines text) span OpenMethod.Begun
    (fun line _ method opened => by
      obtain ⟨isCode, signature, declared, -, rfl⟩ := openMethod?_eq_some opened
      exact ⟨line, [], signature, rfl, isCode, declared, rfl⟩)
    (fun line _ method begun _ => by
      obtain ⟨head, body, signature, taken, isCode, declared, named⟩ := begun
      exact ⟨head, body ++ [line], signature, by simp [OpenMethod.extend, taken], isCode,
        declared, named⟩)
    (by simp) member
  exact made.imp fun method held => held.1

theorem methodPass_eq (term text : Text) :
    methodPass term text =
      (unlines ((methodSpans term text).flatMap Span.after) (endsWithNewline text),
        (methodSpans term text).flatMap Span.findings) := by
  rw [methodPass, sweepMethods_eq]
  rfl

/-- The first pass, span by span. -/
theorem pass_methodPass (term text : Text) :
    Pass text (methodSpans term text) (methodPass term text).1 (methodPass term text).2 := by
  rw [methodPass_eq]
  refine Pass.of_unlines (flatMap_before_spansFrom term none (lines text)) ?_
  intro span member
  have made := begun_of_mem_methodSpans member
  cases span with
  | kept line => simp [Span.before]
  | removed method =>
      obtain ⟨head, body, -, taken, -⟩ := made
      simp [Span.before, taken]
  | commented line assigned => exact made.elim

/-! ### The second pass -/

/-- The span of a line for the second pass. -/
def lineSpan (term : Text) (line : Line) : Span :=
  if staysLive term line then .kept line
  else .commented line (taintedVariable? term line).toOption.join

/-- The spans of a text for the second pass. -/
def lineSpans (term text : Text) : List Span :=
  (lines text).map (lineSpan term)

theorem before_lineSpan (term : Text) (line : Line) : (lineSpan term line).before = [line] := by
  unfold lineSpan
  split <;> rfl

theorem flatMap_before_lineSpans (term text : Text) :
    (lineSpans term text).flatMap Span.before = lines text := by
  simp [lineSpans, List.flatMap_map, before_lineSpan]

theorem sweepLine_eq_ok {term : Text} {line : Line} {result : List Line × List Finding}
    (swept : sweepLine term line = .ok result) :
    (lineSpan term line).OfLines term ∧
      result = ((lineSpan term line).after, (lineSpan term line).findings) := by
  unfold sweepLine at swept
  unfold lineSpan
  split at swept
  · rename_i live
    rw [Except.ok.injEq] at swept
    rw [if_pos live]
    exact ⟨live, swept.symm⟩
  · rename_i hit
    have notLive : staysLive term line = false := by simpa using hit
    rw [if_neg hit]
    split at swept
    · simp at swept
    · rename_i tainted
      rw [Except.ok.injEq] at swept
      rw [tainted]
      exact ⟨⟨notLive, tainted⟩, swept.symm⟩
    · rename_i name tainted
      rw [Except.ok.injEq] at swept
      rw [tainted]
      exact ⟨⟨notLive, tainted⟩, swept.symm⟩

/-- The second pass replaces each line and reports what it finds there. -/
theorem sweepLines_eq_ok {term : Text} {lines : List Line} {result : List Line × List Finding}
    (swept : sweepLines term lines = .ok result) :
    (∀ span ∈ lines.map (lineSpan term), span.OfLines term) ∧
      result = ((lines.map (lineSpan term)).flatMap Span.after,
        (lines.map (lineSpan term)).flatMap Span.findings) := by
  induction lines generalizing result with
  | nil =>
      rw [sweepLines, Except.ok.injEq] at swept
      exact ⟨by simp, swept.symm⟩
  | cons line rest inductionHypothesis =>
      rw [sweepLines] at swept
      split at swept
      · simp at swept
      · rename_i here found first
        split at swept
        · simp at swept
        · rename_i more findings others
          obtain ⟨made, same⟩ := sweepLine_eq_ok first
          obtain ⟨madeRest, sameRest⟩ := inductionHypothesis others
          rw [Prod.mk.injEq] at same sameRest
          rw [Except.ok.injEq] at swept
          rw [List.map_cons]
          refine ⟨List.forall_mem_cons.mpr ⟨made, madeRest⟩, ?_⟩
          rw [← swept, same.1, same.2, sameRest.1, sameRest.2, List.flatMap_cons,
            List.flatMap_cons]

theorem linePass_eq_ok {term text result : Text} {found : List Finding}
    (passed : linePass term text = .ok (result, found)) :
    (∀ span ∈ lineSpans term text, span.OfLines term) ∧
      result = unlines ((lineSpans term text).flatMap Span.after) (endsWithNewline text) ∧
      found = (lineSpans term text).flatMap Span.findings := by
  unfold linePass at passed
  split at passed
  · simp at passed
  · rename_i written findings swept
    obtain ⟨made, same⟩ := sweepLines_eq_ok swept
    rw [Prod.mk.injEq] at same
    rw [Except.ok.injEq, Prod.mk.injEq] at passed
    exact ⟨made, by rw [← passed.1, same.1]; rfl, by rw [← passed.2, same.2]; rfl⟩

/-- The second pass, span by span. -/
theorem pass_linePass {term text result : Text} {found : List Finding}
    (passed : linePass term text = .ok (result, found)) :
    Pass text (lineSpans term text) result found ∧
      ∀ span ∈ lineSpans term text, span.OfLines term := by
  obtain ⟨made, rfl, rfl⟩ := linePass_eq_ok passed
  refine ⟨Pass.of_unlines (flatMap_before_lineSpans term text) fun span member => ?_, made⟩
  obtain ⟨line, -, rfl⟩ := List.mem_map.mp member
  simp [before_lineSpan]

/-! ### Carriage returns -/

theorem Pass.return_not_mem {text result : Text} {spans : List Span} {found : List Finding}
    (pass : Pass text spans result found) (plain : '\r' ∉ text) :
    ∀ added ∈ spans.flatMap Span.after, '\r' ∉ added := by
  intro added member
  obtain ⟨span, inside, inAfter⟩ := List.mem_flatMap.mp member
  refine Span.not_mem_of_mem_after isForeign_return (fun line covered => ?_) inAfter
  exact not_mem_of_mem_lines plain line (pass.mem_lines inside covered)

/-- Without carriage returns, a pass writes the lines that stand for its spans. -/
theorem Pass.lines_eq {text result : Text} {spans : List Span} {found : List Finding}
    (pass : Pass text spans result found) (plain : '\r' ∉ text) :
    lines result = spans.flatMap Span.after := by
  rw [pass.written]
  exact readBack_of_not_mem (pass.return_not_mem plain) _

/-- Neither pass of a sweep adds a carriage return. -/
theorem return_not_mem_of_sweep {term text result : Text} {inLines : List Finding}
    (plain : '\r' ∉ text)
    (passed : linePass term (methodPass term text).1 = .ok (result, inLines)) :
    '\r' ∉ (methodPass term text).1 ∧ '\r' ∉ result := by
  have between : '\r' ∉ (methodPass term text).1 := by
    rw [methodPass_eq]
    exact not_mem_unlines ((pass_methodPass term text).return_not_mem plain) (by decide) _
  refine ⟨between, ?_⟩
  rw [(linePass_eq_ok passed).2.1]
  exact not_mem_unlines ((pass_linePass passed).1.return_not_mem between) (by decide) _

end Unpacking.Reflection
