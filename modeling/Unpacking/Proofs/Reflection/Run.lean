import Unpacking.Proofs.Reflection.Pass

/-!
A run of sweeps, and where its names come from. A pass only adds comments and placeholders, so
every other line is still a part of the source. A name is found on such a line, and the line does
not survive it: the lines of own code bound the names that a run can find.
-/

namespace Unpacking.Reflection

open Text Line

/-- The sweeps for a list of terms take a source to a text, with findings on the way. -/
inductive Swept (source : Text) : List Text → Text → List Finding → Prop
  | start : Swept source [] source []
  | sweep {terms : List Text} {text result term : Text} {findings inLines : List Finding}
      (earlier : Swept source terms text findings)
      (passed : linePass term (methodPass term text).1 = .ok (result, inLines)) :
      Swept source (terms ++ [term]) result (findings ++ ((methodPass term text).2 ++ inLines))

theorem forall_lines_methodPass {property : Line → Prop} {text : Text}
    (lasting : IsLasting property) (holds : ∀ line ∈ lines text, property line) (term : Text) :
    ∀ line ∈ lines (methodPass term text).1, property line := by
  have pass := pass_methodPass term text
  refine pass.forall_lines lasting fun line inside => ?_
  exact holds line (pass.mem_lines inside (by simp [Span.before]))

theorem forall_lines_linePass {property : Line → Prop} {term text result : Text}
    {found : List Finding} (lasting : IsLasting property)
    (holds : ∀ line ∈ lines text, property line)
    (passed : linePass term text = .ok (result, found)) :
    ∀ line ∈ lines result, property line := by
  obtain ⟨pass, -⟩ := pass_linePass passed
  refine pass.forall_lines lasting fun line inside => ?_
  exact holds line (pass.mem_lines inside (by simp [Span.before]))

/-- A lasting property of the lines of a source holds of the lines of every later text. -/
theorem Swept.forall_lines {property : Line → Prop} {source text : Text} {terms : List Text}
    {findings : List Finding} (swept : Swept source terms text findings)
    (lasting : IsLasting property) (holds : ∀ line ∈ lines source, property line) :
    ∀ line ∈ lines text, property line := by
  induction swept with
  | start => exact holds
  | sweep earlier passed inductionHypothesis =>
      have between := forall_lines_methodPass lasting inductionHypothesis
      exact forall_lines_linePass lasting (between _) passed

theorem Swept.return_not_mem {source text : Text} {terms : List Text} {findings : List Finding}
    (swept : Swept source terms text findings) (plain : '\r' ∉ source) : '\r' ∉ text := by
  induction swept with
  | start => exact plain
  | sweep _ passed inductionHypothesis =>
      exact (return_not_mem_of_sweep inductionHypothesis passed).2

/-! ### Own code -/

/-- A line of code that is no placeholder. -/
def isOwnCode (line : Line) : Bool :=
  !isCommentOrImport line && !isPlaceholder line

theorem isOwnCode_append_return {line : Line} (ownLine : isOwnCode line = true) :
    isOwnCode (line ++ ['\r']) = true := by
  simp only [isOwnCode, Bool.and_eq_true] at ownLine
  rw [isOwnCode, isCommentOrImport_append_return, isPlaceholder_append_return, ownLine.1]
  rfl

/-- A line that a pass added, or a part of the source. -/
def IsDerived (source : Text) (line : Line) : Prop :=
  isOwnCode line = true → line <:+: source

theorem isLasting_isDerived (source : Text) : IsLasting (IsDerived source) where
  comment := by
    intro line comment ownCode
    simp [isOwnCode, isCommentOrImport_of_isLineComment comment] at ownCode
  placeholder := by
    intro line placeholder ownCode
    simp [isOwnCode, placeholder] at ownCode
  shortened := by
    intro line derived ownCode
    have longer := derived (isOwnCode_append_return ownCode)
    exact (List.prefix_append line ['\r']).isInfix.trans longer

/-- Every line of own code is a part of the source. -/
theorem Swept.isDerived {source text : Text} {terms : List Text} {findings : List Finding}
    (swept : Swept source terms text findings) : ∀ line ∈ lines text, IsDerived source line :=
  swept.forall_lines (isLasting_isDerived source) fun _ member _ => infix_of_mem_lines member

namespace Span

/-- The names that a pass finds in a span. -/
def names (span : Span) : List Text :=
  span.findings.filterMap Finding.tainted?

/-- A span of either pass for a term. -/
def IsMade (term : Text) (span : Span) : Prop :=
  span.OfMethods OpenMethod.Begun ∨ span.OfLines term

end Span

theorem isMade_of_mem_methodSpans {term text : Text} :
    ∀ span ∈ methodSpans term text, span.IsMade term :=
  fun _ member => .inl (begun_of_mem_methodSpans member)

/-- A line of code that declares a method or assigns a variable is no placeholder. -/
theorem isOwnCode_of_meaning {line : Line} (isCode : isCommentOrImport line = false)
    (meaning : Signature.parse? line ≠ none ∨ assignment? line ≠ none) :
    isOwnCode line = true := by
  have ownLine : isPlaceholder line = false := by
    rw [Bool.eq_false_iff]
    intro placeholder
    rcases meaning with declares | assigns
    · exact declares (parse?_of_isPlaceholder placeholder)
    · exact assigns (assignment?_of_isPlaceholder placeholder)
  simp [isOwnCode, isCode, ownLine]

theorem taintedVariable?_eq_some {term name : Text} {line : Line}
    (tainted : taintedVariable? term line = .ok (some name)) :
    ∃ assignment, assignment? line = some assignment ∧ assignment.name = name ∧
      assignment.isReadable = true ∧ name ≠ term ∧ occurs term assignment.value = true := by
  unfold taintedVariable? at tainted
  split at tainted
  · simp at tainted
  · rename_i assignment assigns
    split at tainted
    · simp at tainted
    · rename_i readable
      split at tainted
      · rename_i taints
        simp only [Except.ok.injEq, Option.some.injEq] at tainted
        simp only [Bool.and_eq_true, bne_iff_ne] at taints
        exact ⟨assignment, assigns, tainted, by simpa using readable, tainted ▸ taints.1, taints.2⟩
      · simp at tainted

theorem isCommentOrImport_of_staysLive {term : Text} {line : Line}
    (notLive : staysLive term line = false) : isCommentOrImport line = false := by
  simp only [staysLive, Bool.or_eq_false_iff] at notLive
  exact notLive.1.1

/-- A name is found on a line of own code that holds it. -/
theorem Span.ownCode_of_mem_names {term name : Text} {span : Span}
    (made : span.IsMade term) (found : name ∈ span.names) :
    ∃ line ∈ span.before, isOwnCode line = true ∧ IsName name ∧ name <:+: line := by
  cases span with
  | kept line => simp [names, findings] at found
  | removed method =>
      have same : name = method.name := by simpa [names, findings, Finding.tainted?] using found
      obtain ⟨head, body, signature, taken, isCode, declared, named⟩ :=
        made.resolve_right id
      refine ⟨head, by simp [before, taken], ?_, ?_⟩
      · exact isOwnCode_of_meaning isCode (.inl (by simp [declared]))
      · rw [same, named]
        exact Signature.name_of_parse? declared
  | commented line assigned =>
      obtain ⟨notLive, tainted⟩ := made.resolve_left id
      cases assigned with
      | none => simp [names, findings, Finding.tainted?] at found
      | some target =>
          have same : name = target := by simpa [names, findings, Finding.tainted?] using found
          obtain ⟨assignment, assigns, named, -⟩ := taintedVariable?_eq_some tainted
          refine ⟨line, by simp [before], ?_, ?_⟩
          · have isCode := isCommentOrImport_of_staysLive notLive
            exact isOwnCode_of_meaning isCode (.inr (by simp [assigns]))
          · rw [same, ← named]
            exact name_of_assignment? assigns

theorem Pass.ownCode_of_mem_names {term text result name : Text} {spans : List Span}
    {found : List Finding} (pass : Pass text spans result found)
    (made : ∀ span ∈ spans, span.IsMade term)
    (member : name ∈ found.filterMap Finding.tainted?) :
    ∃ line ∈ lines text, isOwnCode line = true ∧ IsName name ∧ name <:+: line := by
  rw [pass.reported, List.filterMap_flatMap] at member
  obtain ⟨span, inside, inSpan⟩ := List.mem_flatMap.mp member
  obtain ⟨line, covered, ownLine⟩ := Span.ownCode_of_mem_names (made span inside) inSpan
  exact ⟨line, pass.mem_lines inside covered, ownLine⟩

/-- Every name that a run finds is a name, and a part of the source. -/
theorem Swept.name_of_mem {source text name : Text} {terms : List Text} {findings : List Finding}
    (swept : Swept source terms text findings)
    (member : name ∈ findings.filterMap Finding.tainted?) : IsName name ∧ name <:+: source := by
  induction swept with
  | start => simp at member
  | @sweep terms text result term findings inLines earlier passed inductionHypothesis =>
      have derived := earlier.isDerived
      have between := forall_lines_methodPass (isLasting_isDerived source) derived term
      have onLine (line : Line) (fromSource : IsDerived source line)
          (held : isOwnCode line = true ∧ IsName name ∧ name <:+: line) :
          IsName name ∧ name <:+: source :=
        ⟨held.2.1, held.2.2.trans (fromSource held.1)⟩
      simp only [List.filterMap_append, List.mem_append] at member
      rcases member with before | inMethods | inLines
      · exact inductionHypothesis before
      · obtain ⟨line, inside, held⟩ := (pass_methodPass term text).ownCode_of_mem_names
          isMade_of_mem_methodSpans inMethods
        exact onLine line (derived line inside) held
      · obtain ⟨pass, made⟩ := pass_linePass passed
        obtain ⟨line, inside, held⟩ := pass.ownCode_of_mem_names
          (fun span member => .inr (made span member)) inLines
        exact onLine line (between line inside) held

/-! ### The names that are left to find -/

/-- The number of lines of own code. -/
def ownCode (text : Text) : Nat :=
  (lines text).countP isOwnCode

namespace Span

/-- A span that does not stay leaves no own code. -/
theorem countP_after {span : Span} (changed : ∀ line, span ≠ .kept line) :
    span.after.countP isOwnCode = 0 := by
  rw [List.countP_eq_zero]
  intro line member
  rcases mem_after member with kept | comment | placeholder
  · exact absurd kept (changed line)
  · simp [isOwnCode, isCommentOrImport_of_isLineComment comment]
  · simp [isOwnCode, placeholder]

/-- Each name that is found takes a line of own code with it. -/
theorem names_add_ownCode {term : Text} {span : Span} (made : span.IsMade term) :
    span.names.length + span.after.countP isOwnCode ≤ span.before.countP isOwnCode := by
  have single : span.names.length ≤ 1 := by
    cases span with
    | kept line => exact Nat.zero_le 1
    | removed method => exact Nat.le_refl 1
    | commented line assigned =>
        cases assigned with
        | none => exact Nat.zero_le 1
        | some name => exact Nat.le_refl 1
  by_cases found : span.names = []
  · have fewer : span.after.countP isOwnCode ≤ span.before.countP isOwnCode := by
      by_cases kept : ∃ line, span = .kept line
      · obtain ⟨line, rfl⟩ := kept
        exact Nat.le_refl _
      · rw [countP_after fun line same => kept ⟨line, same⟩]
        exact Nat.zero_le _
    simpa [found] using fewer
  · obtain ⟨name, member⟩ := List.exists_mem_of_ne_nil _ found
    obtain ⟨line, covered, ownLine, -⟩ := ownCode_of_mem_names made member
    have positive := List.countP_pos_iff.mpr ⟨line, covered, ownLine⟩
    have cleared : span.after.countP isOwnCode = 0 := by
      refine countP_after fun other same => ?_
      simp [same, names, findings] at member
    omega

end Span

theorem Pass.names_add_ownCode {term text result : Text} {spans : List Span}
    {found : List Finding} (pass : Pass text spans result found)
    (made : ∀ span ∈ spans, span.IsMade term) :
    (found.filterMap Finding.tainted?).length + ownCode result ≤ ownCode text := by
  have summed : ∀ {spans : List Span}, (∀ span ∈ spans, span.IsMade term) →
      ((spans.flatMap Span.findings).filterMap Finding.tainted?).length +
        (spans.flatMap Span.after).countP isOwnCode ≤
      (spans.flatMap Span.before).countP isOwnCode := by
    intro spans made
    induction spans with
    | nil => simp
    | cons span rest inductionHypothesis =>
        have first := Span.names_add_ownCode (made span (by simp))
        have others := inductionHypothesis fun other member => made other (by simp [member])
        simp only [List.flatMap_cons, List.filterMap_append, List.length_append,
          List.countP_append]
        simp only [Span.names] at first
        omega
  have written := @countP_readBack_le isOwnCode (fun _ => isOwnCode_append_return)
    (endsWithNewline text) (spans.flatMap Span.after)
  rw [← pass.written] at written
  have total := summed made
  rw [pass.covers, ← pass.reported] at total
  unfold ownCode
  omega

/-- Each name that a sweep finds takes a line of own code with it. -/
theorem names_add_ownCode_of_sweep {term text result : Text} {inLines : List Finding}
    (passed : linePass term (methodPass term text).1 = .ok (result, inLines)) :
    (((methodPass term text).2 ++ inLines).filterMap Finding.tainted?).length + ownCode result ≤
      ownCode text := by
  have first := (pass_methodPass term text).names_add_ownCode isMade_of_mem_methodSpans
  obtain ⟨pass, made⟩ := pass_linePass passed
  have second := pass.names_add_ownCode fun span member => .inr (made span member)
  rw [List.filterMap_append, List.length_append]
  omega

end Unpacking.Reflection
