import Unpacking.Proofs.Reflection.Soundness

/-!
How a name becomes reflective through an assignment. A line is looked at by the first sweep whose
term it holds, and is a comment for all later sweeps. So the first reflective name on a line
decides whether the variable that the line assigns becomes reflective.
-/

namespace Unpacking.Reflection

open Text Line

/-- A line that was commented out on its own in the sweep for a term, behind the sweeps for some
earlier terms. -/
structure IsHit (findings : List Finding) (earlier : List Text) (term : Text) (line : Line) :
    Prop where
  hit : staysLive term line = false
  settled : ∀ other ∈ earlier, IsName other → IsSettled other line
  reported : ∃ assigned, taintedVariable? term line = .ok assigned ∧
    ∀ name, assigned = some name → name ∈ findings.filterMap Finding.tainted?

theorem IsHit.mono {findings more : List Finding} {earlier : List Text} {term : Text} {line : Line}
    (isHit : IsHit findings earlier term line) (within : findings ⊆ more) :
    IsHit more earlier term line := by
  obtain ⟨assigned, tainted, names⟩ := isHit.reported
  refine ⟨isHit.hit, isHit.settled, assigned, tainted, fun name same => ?_⟩
  obtain ⟨finding, inside, found⟩ := List.mem_filterMap.mp (names name same)
  exact List.mem_filterMap.mpr ⟨finding, within inside, found⟩

/-- The first pass reports no line on its own. -/
theorem codeLine_not_mem_methodPass {term text : Text} {line : Line} :
    Finding.codeLine line ∉ (methodPass term text).2 := by
  intro member
  rw [(pass_methodPass term text).reported] at member
  obtain ⟨span, inside, found⟩ := List.mem_flatMap.mp member
  have made := begun_of_mem_methodSpans inside
  cases span with
  | kept line => simp [Span.findings] at found
  | removed method => simp [Span.findings] at found
  | commented line assigned => exact made

theorem isHit_of_linePass {term text result : Text} {earlier : List Text} {inLines : List Finding}
    {line : Line} (settled : ∀ other ∈ earlier, IsName other → ∀ line ∈ lines text,
      IsSettled other line)
    (passed : linePass term text = .ok (result, inLines))
    (member : Finding.codeLine line ∈ inLines) : IsHit inLines earlier term line := by
  obtain ⟨pass, made⟩ := pass_linePass passed
  rw [pass.reported] at member
  obtain ⟨span, inside, found⟩ := List.mem_flatMap.mp member
  have ofLines := made span inside
  cases span with
  | kept other => simp [Span.findings] at found
  | removed method => exact ofLines.elim
  | commented other assigned =>
      have same : line = other := by cases assigned <;> simpa [Span.findings] using found
      subst other
      have inText : line ∈ lines text := pass.mem_lines inside (by simp [Span.before])
      refine ⟨ofLines.1, fun other before name => settled other before name line inText, assigned,
        ofLines.2, ?_⟩
      rintro name rfl
      rw [pass.reported]
      refine List.mem_filterMap.mpr ⟨.assigned name, ?_, rfl⟩
      exact List.mem_flatMap.mpr ⟨_, inside, by simp [Span.findings]⟩

/-- Every line that a run comments out on its own is a hit of one of its terms. -/
theorem Swept.isHit_of_mem {source text : Text} {terms : List Text} {findings : List Finding}
    {line : Line} (swept : Swept source terms text findings)
    (member : Finding.codeLine line ∈ findings) :
    ∃ earlier term later, terms = earlier ++ term :: later ∧ IsHit findings earlier term line := by
  induction swept with
  | start => simp at member
  | @sweep terms text result latest findings inLines earlier passed inductionHypothesis =>
      rcases List.mem_append.mp member with before | here
      · obtain ⟨first, term, later, rfl, isHit⟩ := inductionHypothesis before
        refine ⟨first, term, later ++ [latest], by simp, isHit.mono ?_⟩
        exact List.subset_append_left _ _
      · have inLast := (List.mem_append.mp here).resolve_left codeLine_not_mem_methodPass
        refine ⟨terms, latest, [], rfl, IsHit.mono (isHit_of_linePass ?_ passed inLast) ?_⟩
        · intro other swept name
          exact forall_lines_methodPass (isLasting_isSettled name) (earlier.isSettled name swept)
            latest
        · exact List.subset_append_of_subset_right _ (List.subset_append_right _ _)

/-- The term of a hit is the first name of the run on its line. -/
theorem IsHit.find?_eq {findings : List Finding} {earlier later : List Text} {term : Text}
    {line : Line} {assignment : Assignment} (isHit : IsHit findings earlier term line)
    (names : ∀ other ∈ earlier, IsName other) (assigns : assignment? line = some assignment) :
    (earlier ++ term :: later).find? (occurs · line) = some term := by
  have notLive := isHit.hit
  simp only [staysLive, Bool.or_eq_false_iff, Bool.not_eq_false'] at notLive
  obtain ⟨⟨isCode, found⟩, undeclared⟩ := notLive
  have absent : earlier.find? (occurs · line) = none := by
    rw [List.find?_eq_none]
    intro other before
    rcases isHit.settled other before (names other before) with placeholder | live
    · simp [assignment?_of_isPlaceholder placeholder] at assigns
    · simpa [staysLive, isCode, undeclared] using live
  rw [List.find?_append, absent, Option.none_or]
  exact List.find?_cons_of_pos found

theorem eq_some_of_taintedVariable? {term : Text} {line : Line} {assignment : Assignment}
    {assigned : Option Text} (tainted : taintedVariable? term line = .ok assigned)
    (assigns : assignment? line = some assignment) (other : term ≠ assignment.name)
    (fromTerm : occurs term assignment.value = true) : assigned = some assignment.name := by
  rw [taintedVariable?, assigns] at tainted
  simp only at tainted
  split at tainted
  · simp at tainted
  · simpa [fromTerm, Ne.symm other] using tainted.symm

/-- A variable becomes reflective, and is processed, when a line that was commented out on its own
assigns it from the reflective name on that line which was swept first. -/
theorem processed_of_assigned_from_first {source term : Text} {removal : Removal} {line : Line}
    {assignment : Assignment} (removed : remove vocabulary source = .ok removal)
    (commented : .codeLine line ∈ removal.findings)
    (assigns : assignment? line = some assignment)
    (first : (vocabulary ++ removal.processed).find? (occurs · line) = some term)
    (other : term ≠ assignment.name) (fromTerm : occurs term assignment.value = true) :
    assignment.name ∈ removal.processed := by
  have follows := follows_of_remove removed
  obtain ⟨earlier, hitTerm, later, split, isHit⟩ := follows.swept.isHit_of_mem commented
  have names : ∀ name ∈ earlier, IsName name := by
    intro name before
    have member : name ∈ vocabulary ++ removal.processed := by simp [split, before]
    rcases List.mem_append.mp member with listed | processed
    · exact (name_of_mem_vocabulary listed).1
    · have tainted := (mem_processed_of_remove removed name).mp processed
      exact (follows.name_of_mem tainted).1
  have same : hitTerm = term := by
    rw [split, isHit.find?_eq names assigns] at first
    exact Option.some.inj first
  subst hitTerm
  obtain ⟨assigned, tainted, reported⟩ := isHit.reported
  have named := eq_some_of_taintedVariable? tainted assigns other fromTerm
  rw [mem_processed_of_remove removed, Removal.mem_tainted]
  exact reported assignment.name named

/-- A chain of assignments: each variable is assigned from the one before. -/
theorem processed_of_assigned_chain :
    ∃ removal, remove vocabulary "x=invoke();\ny=x;" = .ok removal ∧
      .codeLine "y=x;" ∈ removal.findings ∧ ("y" : Text) ∈ removal.processed := by
  have run : (remove vocabulary "x=invoke();\ny=x;").map
      (fun removal => (removal.findings, (vocabulary ++ removal.processed).find? (occurs · "y=x;"))) =
      .ok ([.assigned "x", .codeLine "x=invoke();", .assigned "y", .codeLine "y=x;"],
        some "x") := by decide +kernel
  obtain ⟨removal, removed, seen⟩ := exists_remove_of_map run
  rw [Prod.mk.injEq] at seen
  have commented : .codeLine "y=x;" ∈ removal.findings := by
    rw [seen.1]
    decide +kernel
  have assigns : assignment? "y=x;" = some { name := "y", value := "x;" } := by decide
  exact ⟨removal, removed, commented, processed_of_assigned_from_first removed commented assigns
    seen.2 (by decide) (by decide)⟩

/-- A name that is swept first and stands before the equals sign hides the names behind it: the
line becomes a comment, and its variable does not become reflective. -/
theorem not_processed_of_assigned_behind_first :
    ∃ removal assignment,
      remove vocabulary "c.getMethod().v = m.invoke();" = .ok removal ∧
      .codeLine "c.getMethod().v = m.invoke();" ∈ removal.findings ∧
      assignment? "c.getMethod().v = m.invoke();" = some assignment ∧
      ("invoke" : Text) ∈ vocabulary ∧ ("invoke" : Text) ≠ assignment.name ∧
      occurs "invoke" assignment.value = true ∧ assignment.name ∉ removal.processed := by
  have removed : remove vocabulary "c.getMethod().v = m.invoke();" = .ok {
      text := "// c.getMethod().v = m.invoke(); " ++ lineMarker
      findings := [.codeLine "c.getMethod().v = m.invoke();"] } := by decide +kernel
  have assigns : assignment? "c.getMethod().v = m.invoke();" =
      some { name := "v", value := " m.invoke();" } := by decide +kernel
  exact ⟨_, _, removed, by decide +kernel, assigns, by decide +kernel, by decide +kernel,
    by decide +kernel, by decide +kernel⟩

end Unpacking.Reflection
