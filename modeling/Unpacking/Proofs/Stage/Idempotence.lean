import Unpacking.Proofs.Stage.PlatformImport

/-!
Stages that are run a second time. A stage that changes each line on its own leaves the lines that
it made as they are: a call that became a comment is a comment, a member that became static is
static, and where a self reference was dropped no other one comes about. Main statement:
`run_run_of_isLinewise`.
-/

namespace Unpacking.Stage

open Text Line

/-- What a stage does to each line: it adds no end of a line, it leaves comments as they are, and it
leaves the lines that it made as they are. -/
structure IsSettling (change : Line → Line) : Prop where
  free : ∀ line c, c = '\n' ∨ c = '\r' → c ∉ line → c ∉ change line
  comment : ∀ line, isLineComment line = true → change line = line
  again : ∀ line, change (change line) = change line

variable {text rest : Text} {line : Line} {change : Line → Line}

/-! ### Lines that become comments -/

/-- A line that is changed becomes a comment, and a comment is not changed. -/
theorem IsSettling.of_comments (free : ∀ line c, c = '\n' ∨ c = '\r' → c ∉ line → c ∉ change line)
    (comment : ∀ line, isLineComment line = true → change line = line)
    (either : ∀ line, change line = line ∨ isLineComment (change line) = true) :
    IsSettling change where
  free := free
  comment := comment
  again := by
    intro line
    rcases either line with same | commented
    · rw [same, same]
    · exact comment _ commented

theorem not_mem_commentOut {c : Char} (ending : c = '\n' ∨ c = '\r') (free : c ∉ line) :
    c ∉ commentOut line := by
  rw [commentOut, List.mem_append, not_or]
  refine ⟨?_, free⟩
  rcases ending with rfl | rfl <;> decide

theorem isSettling_withoutSuperclassCall : IsSettling withoutSuperclassCall := by
  have idle {line : Line} (other : isSuperclassCall line = false) :
      withoutSuperclassCall line = line := by
    rw [withoutSuperclassCall, if_neg (by simp [other])]
  apply IsSettling.of_comments
  · intro line c ending free
    cases call : isSuperclassCall line with
    | false => rwa [idle call]
    | true =>
        rcases ending with rfl | rfl <;>
          exact not_mem_commentedCall call (by decide) (by decide +kernel) free
  · intro line comment
    cases call : isSuperclassCall line with
    | false => exact idle call
    | true => simp [isLineComment_of_isSuperclassCall call] at comment
  · intro line
    cases call : isSuperclassCall line with
    | false => exact .inl (idle call)
    | true => exact .inr (isLineComment_commentedCall call)

theorem isPackageLine_of_isLineComment (comment : isLineComment line = true) :
    isPackageLine line = false := by
  obtain ⟨rest, same⟩ := List.isPrefixOf_iff_prefix.mp comment
  rw [isPackageLine, ← same]
  rfl

theorem isSettling_withoutPackage : IsSettling withoutPackage := by
  apply IsSettling.of_comments
  · intro line c ending free
    unfold withoutPackage
    split
    · exact not_mem_commentOut ending free
    · exact free
  · intro line comment
    rw [withoutPackage, if_neg (by simp [isPackageLine_of_isLineComment comment])]
  · intro line
    unfold withoutPackage
    split
    · exact .inr (isLineComment_slashes _)
    · exact .inl rfl

theorem isSettling_withoutPlatformImport (namespaces : List Text) :
    IsSettling (withoutPlatformImport namespaces) := by
  apply IsSettling.of_comments
  · intro line c ending free
    rcases withoutPlatformImport_cases namespaces line with same | commented
    · rwa [same]
    · rw [commented]
      exact not_mem_commentOut ending free
  · intro line comment
    rw [withoutPlatformImport, importLine?_of_isLineComment comment]
  · intro line
    rcases withoutPlatformImport_cases namespaces line with same | commented
    · exact .inl same
    · rw [commented]
      exact .inr (isLineComment_slashes _)

/-! ### Members that become static -/

/-- A line that is changed gets the modifier, and the line with the modifier is not changed. -/
theorem IsSettling.of_insertStatic
    (cases : ∀ line, change line = line ∨
      isLineComment line = false ∧ ∃ size, change line = insertStatic line size)
    (again : ∀ line, change (change line) = change line) : IsSettling change where
  free := by
    intro line c ending free
    rcases cases line with same | ⟨-, size, same⟩
    · rwa [same]
    · rw [same, mem_insertStatic, not_or]
      refine ⟨free, ?_⟩
      rcases ending with rfl | rfl <;> decide
  comment := by
    intro line comment
    rcases cases line with same | ⟨isCode, -⟩
    · exact same
    · simp [isCode] at comment
  again := again

theorem makeMethodStatic_of_static
    (static : ∀ signature, Signature.parse? line = some signature → signature.isStatic = true) :
    makeMethodStatic line = line := by
  unfold makeMethodStatic
  split
  · rfl
  · split
    · rename_i signature declared
      simp [static signature declared]
    · rfl

/-- A line on which a method became static declares a static method, or no method at all. -/
theorem makeMethodStatic_makeMethodStatic (line : Line) :
    makeMethodStatic (makeMethodStatic line) = makeMethodStatic line := by
  by_cases opening : ∃ signature, OpensMethod line signature
  · obtain ⟨signature, opening⟩ := opening
    obtain ⟨shown, hidden⟩ := parse?_of_opensMethod opening
    refine makeMethodStatic_of_static fun found declared => ?_
    cases hides : signature.hidesStatic with
    | false =>
        obtain ⟨head, static⟩ := shown hides
        rw [static] at declared
        rw [← Option.some.inj declared]
    | true => simp [hidden hides] at declared
  · have same := makeMethodStatic_of_not (not_exists.mp opening)
    rw [same, same]

theorem solid_fieldModifiers : ∀ word ∈ fieldModifiers, ∀ c ∈ word, isBlank c = false := by
  have all : fieldModifiers.all (fun word => word.all fun c => !isBlank c) = true := by decide
  simpa using all

/-- The modifier before the type of a field is read as one more modifier. -/
theorem fieldDeclaration?_insertStatic {field : FieldDeclaration}
    (found : fieldDeclaration? line = some field) :
    fieldDeclaration? (insertStatic line (line.length - field.fromType.length)) =
      some { field with modifiers := field.modifiers ++ [("static" : Text)] } := by
  have steady : IsSteady (oneOf? fieldModifiers) :=
    isSteady_oneOf? solid_fieldModifiers (by decide)
  rw [fieldDeclaration?, findSome?_repeats_eq_some_iff (shrinks_oneOf? _)] at found
  obtain ⟨modifiers, fromType, reads, here, longest⟩ := found
  obtain ⟨⟨type, name⟩, typed, rfl⟩ := Option.map_eq_some_iff.mp here
  obtain ⟨flush, part, whole, chain⟩ := reads.exists_isChain steady (isFlush_trimStart line)
  obtain ⟨lead, blank, rfl⟩ : ∃ lead, (∀ c ∈ lead, isBlank c = true) ∧
      line = lead ++ (part ++ fromType) := by
    refine ⟨indentation line, fun c member => List.mem_takeWhile_imp member, ?_⟩
    rw [← whole]
    exact List.takeWhile_append_dropWhile.symm
  have inserted : insertStatic (lead ++ (part ++ fromType))
      ((lead ++ (part ++ fromType)).length - fromType.length) =
        lead ++ (part ++ (("static " : Text) ++ fromType)) := by
    rw [insertStatic, ← List.append_assoc lead, @List.length_append _ (lead ++ part),
      Nat.add_sub_cancel, List.take_left, List.drop_left]
    simp only [List.append_assoc]
  have start : trimStart (lead ++ (part ++ (("static " : Text) ++ fromType))) =
      part ++ (("static " : Text) ++ fromType) := by
    have flushParts := isFlush_trimStart (lead ++ (part ++ fromType))
    rw [whole] at flushParts
    exact trimStart_append blank
      (flushParts.replace (Signature.IsLayout.isFlush_static fromType))
  have word : oneOf? fieldModifiers (("static " : Text) ++ fromType) =
      some (("static" : Text), fromType) :=
    (oneOf?_eq_some_iff solid_fieldModifiers).mpr
      ⟨by decide, [' '], rfl, by decide, List.all_eq_true.mp (by decide), flush⟩
  rw [inserted, fieldDeclaration?, findSome?_repeats_eq_some_iff (shrinks_oneOf? _), start]
  refine ⟨modifiers ++ [("static" : Text)], fromType, ?_, ?_, fun others last filled further => ?_⟩
  · exact (chain.reads _ (Signature.IsLayout.isFlush_static fromType)).append
      (.more word (.done fromType))
  · dsimp only at typed ⊢
    rw [typed]
    rfl
  · have nothing := longest others last filled further
    rw [Option.map_eq_none_iff] at nothing ⊢
    exact nothing

theorem makeFieldStatic_of_static {field : FieldDeclaration}
    (found : fieldDeclaration? line = some field)
    (static : field.modifiers.contains "static" = true) : makeFieldStatic line = line := by
  unfold makeFieldStatic
  split
  · rfl
  · rw [found]
    dsimp only
    rw [static]
    rfl

theorem makeFieldStatic_makeFieldStatic (line : Line) :
    makeFieldStatic (makeFieldStatic line) = makeFieldStatic line := by
  have either : makeFieldStatic line = line ∨ ∃ field, fieldDeclaration? line = some field ∧
      makeFieldStatic line = insertStatic line (line.length - field.fromType.length) := by
    unfold makeFieldStatic
    split
    · exact .inl rfl
    · split
      · rename_i field found
        split
        · exact .inl rfl
        · exact .inr ⟨field, found, rfl⟩
      · exact .inl rfl
  rcases either with same | ⟨field, found, same⟩
  · rw [same, same]
  · rw [same]
    exact makeFieldStatic_of_static (fieldDeclaration?_insertStatic found) (by simp)

/-! ### Self references that are dropped -/

/-- A place where an object refers to itself: the word `this` before a dot. -/
def MentionsSelf (line : Line) : Prop :=
  ∃ before behind, line = before ++ (("this." : Text) ++ behind) ∧ isWordAt before.getLast? = false

/-- Every `this.` of a text ends a longer word, given the character before the text. -/
def IsClear (before : Option Char) (text : Text) : Prop :=
  ∀ front behind, text = front ++ (("this." : Text) ++ behind) →
    isWordAt (lastOr before front) = true

theorem IsClear.of_append {before : Option Char} {front : Text}
    (clear : IsClear before (front ++ text)) : IsClear (lastOr before front) text := by
  rintro middle behind rfl
  rw [← Pattern.lastOr_append]
  exact clear (front ++ middle) behind (List.append_assoc _ _ _).symm

theorem IsClear.not_mentionsSelf (clear : IsClear none line) : ¬MentionsSelf line := by
  rintro ⟨front, behind, whole, outside⟩
  have inWord := clear front behind whole
  have last : lastOr none front = front.getLast? := by
    cases found : front.getLast? <;> simp [lastOr, found]
  rw [last, outside] at inWord
  exact absurd inWord (by decide)

/-- In a clear text no self reference is found, be it qualified or not. -/
theorem IsClear.selfReference_eq_none {before : Option Char} (clear : IsClear before text) :
    selfReference before text = none := by
  cases found : selfReference before text with
  | none => rfl
  | some size =>
      obtain ⟨boundary, either⟩ := selfReference_eq_some found
      rcases either with qualified | plain
      · obtain ⟨front, whole⟩ : ∃ front, text =
            (front ++ ['.']) ++ (("this." : Text) ++ text.drop size) := by
          obtain ⟨c, rest, rfl⟩ : ∃ c rest, text = c :: rest := by
            cases text with
            | nil => simp [qualifiedSelf?] at qualified
            | cons c rest => exact ⟨c, rest, rfl⟩
          rw [qualifiedSelf?] at qualified
          split at qualified
          · refine ⟨c :: rest.takeWhile isNameCharacter, ?_⟩
            conv_lhs => rw [← List.takeWhile_append_dropWhile (p := isNameCharacter) (l := rest),
              after?_eq_some qualified]
            simp
          · simp at qualified
        have inWord := clear (front ++ ['.']) _ whole
        rw [lastOr_append_singleton] at inWord
        exact absurd inWord (by decide)
      · have whole := after?_eq_some plain
        have inWord : isWordAt before = true := clear [] _ whole
        have outside := isWordAt_of_isBoundary inWord boundary
        rw [whole] at outside
        change isWord 't' = false at outside
        exact absurd outside (by decide)

/-- Where a word begins, `this.` is a self reference. -/
theorem exists_selfReference {before : Option Char} (outside : isWordAt before = false)
    (rest : Text) : ∃ size, selfReference before (("this." : Text) ++ rest) = some (size + 1) := by
  have boundary : isBoundary before (("this." : Text) ++ rest).head? = true := by
    rw [isBoundary, outside]
    rfl
  rw [selfReference, Pattern.atBoundary, if_pos boundary, Pattern.orElse]
  split
  · rename_i size matched
    obtain ⟨last, read, rfl⟩ := Option.map_eq_some_iff.mp matched
    obtain ⟨front, whole⟩ := append_of_qualifiedSelf? read
    refine ⟨front.length, ?_⟩
    rw [whole, List.length_append, List.length_cons, Option.some.injEq]
    omega
  · refine ⟨4, ?_⟩
    rw [Pattern.literal, Pattern.ofReader, after?_append, Option.map_some, List.length_append,
      Nat.add_sub_cancel]
    rfl

/-- What a text becomes without its self references, given the character before it. Inside of a
word no dot is moved behind the word, unless the word is the qualifier of a self reference
itself. -/
structure Clears (before : Option Char) (old new : Text) : Prop where
  clear : IsClear before new
  word : isWordAt before = true → selfBehind? old = none → ∀ word behind,
    (∀ c ∈ word, isWord c = true) → new = word ++ '.' :: behind →
      ∃ last, old = word ++ '.' :: last

/-- A character that is kept does not begin a self reference with what comes behind it. -/
theorem Clears.cons {before : Option Char} {c : Char} {new : Text}
    (clears : Clears (some c) rest new)
    (kept : ∀ size, selfReference before (c :: rest) ≠ some (size + 1)) :
    Clears before (c :: rest) (c :: new) where
  clear := by
    intro front behind whole
    cases front with
    | cons d front =>
        obtain ⟨rfl, tail⟩ := List.cons.inj whole
        rw [lastOr_cons]
        exact clears.clear front behind tail
    | nil =>
        obtain ⟨rfl, tail⟩ := List.cons.inj whole
        by_contra outside
        rw [lastOr_nil, Bool.not_eq_true] at outside
        have stays := selfBehind?_of_kept outside (by decide) (by decide) kept
        obtain ⟨last, rfl⟩ := clears.word (by decide) stays "his" behind
          (List.all_eq_true.mp (by decide)) tail
        obtain ⟨size, found⟩ := exists_selfReference outside last
        exact kept size found
  word := by
    intro inWord stays word behind isWord whole
    cases word with
    | nil =>
        obtain ⟨rfl, -⟩ := List.cons.inj whole
        exact ⟨rest, rfl⟩
    | cons d word =>
        obtain ⟨rfl, tail⟩ := List.cons.inj whole
        have here := isWord c (by simp)
        rw [selfBehind?_cons (by simp [isNameCharacter, here])] at stays
        obtain ⟨last, rfl⟩ := clears.word here stays word behind
          (fun d member => isWord d (by simp [member])) tail
        exact ⟨last, rfl⟩

theorem clears_replaceAll (line : Line) :
    Clears none line (selfReference.replaceAll (fun _ => []) line) := by
  apply Pattern.replaceFrom_induction
  · intro before
    exact ⟨by simp [IsClear], by simp⟩
  · intro before c rest new kept clears
    exact clears.cons kept
  · intro before text size new found clears
    constructor
    · intro front behind whole
      have inWord := clears.clear front behind whole
      rw [lastOr_of_selfReference found] at inWord
      cases front with
      | nil => exact absurd inWord (by decide)
      | cons c front => rwa [lastOr_of_ne_nil (List.cons_ne_nil c front) before]
    · intro inWord stays
      exact absurd stays (selfBehind?_of_selfReference inWord found)

theorem isSettling_withoutSelfReferences : IsSettling withoutSelfReferences where
  free := by
    intro line c _ free
    unfold withoutSelfReferences
    split
    · exact free
    · exact fun member => free ((Pattern.replaceAll_sublist selfReference line).mem member)
  comment := by
    intro line comment
    rw [withoutSelfReferences, if_pos comment]
  again := by
    intro line
    cases comment : isLineComment line with
    | true => simp [withoutSelfReferences, comment]
    | false =>
        have dropped :
            withoutSelfReferences line = selfReference.replaceAll (fun _ => []) line := by
          rw [withoutSelfReferences, if_neg (by simp [comment])]
        rw [dropped, withoutSelfReferences]
        split
        · rfl
        · apply Pattern.replaceFrom_of_none
          intro left right whole
          have clear := (clears_replaceAll line).clear
          rw [whole] at clear
          exact clear.of_append.selfReference_eq_none

theorem not_mentionsSelf_withoutSelfReferences (isCode : isLineComment line = false) :
    ¬MentionsSelf (withoutSelfReferences line) := by
  rw [withoutSelfReferences, if_neg (by simp [isCode])]
  exact (clears_replaceAll line).clear.not_mentionsSelf

/-! ### Stages that are run a second time -/

/-- The stages that change each line on its own, without looking at the other lines. -/
def Step.IsLinewise : Step → Prop
  | .commentSuperclassCalls => True
  | .commentPackageLines => True
  | .makeMethodsStatic => True
  | .makeFieldsStatic => True
  | .removeSelfReferences => True
  | .commentPlatformImports _ => True
  | _ => False

/-- The change of single lines that a stage makes. -/
theorem Step.IsLinewise.exists_change {step : Step} (linewise : step.IsLinewise) :
    ∃ change, IsSettling change ∧ (step = .removeSelfReferences → change = withoutSelfReferences) ∧
      ∀ text, step.run text = .ok { text := mapLines change text } := by
  cases step with
  | commentSuperclassCalls =>
      exact ⟨_, isSettling_withoutSuperclassCall, by simp, fun _ => rfl⟩
  | commentPackageLines => exact ⟨_, isSettling_withoutPackage, by simp, fun _ => rfl⟩
  | makeMethodsStatic =>
      exact ⟨_, .of_insertStatic makeMethodStatic_cases makeMethodStatic_makeMethodStatic, by simp,
        fun _ => rfl⟩
  | makeFieldsStatic =>
      exact ⟨_, .of_insertStatic makeFieldStatic_cases makeFieldStatic_makeFieldStatic, by simp,
        fun _ => rfl⟩
  | removeSelfReferences =>
      exact ⟨_, isSettling_withoutSelfReferences, fun _ => rfl, fun _ => rfl⟩
  | commentPlatformImports namespaces =>
      exact ⟨_, isSettling_withoutPlatformImport namespaces, by simp, fun _ => rfl⟩
  | renameClass | stripBaseClass | entryPoint | substitute | removeReflection =>
      exact linewise.elim

/-- A stage that changes each line on its own has nothing left to do when it is run a second time.
It leaves every comment as it is and where it is, and without self references no other line refers
to the object itself. -/
theorem run_run_of_isLinewise {step : Step} {text : Text} (linewise : step.IsLinewise)
    (plain : '\r' ∉ text) :
    ∃ outcome, step.run text = .ok outcome ∧ step.run outcome.text = .ok outcome ∧
      (∀ (place : Nat) (line : Line), (lines text)[place]? = some line → isLineComment line = true →
        (lines outcome.text)[place]? = some line) ∧
      (step = .removeSelfReferences → ∀ line ∈ lines outcome.text, isLineComment line = false →
        ¬MentionsSelf line) := by
  obtain ⟨change, settling, selfless, run⟩ := linewise.exists_change
  refine ⟨{ text := mapLines change text }, run text, ?_, ?_, ?_⟩
  · rw [run]
    dsimp only
    rw [mapLines_mapLines plain settling.free settling.again]
  · intro place line found comment
    refine getElem?_lines_mapLines plain settling.free found (settling.comment line comment) ?_
    rintro rfl
    simp [isLineComment, trimStart, begins] at comment
  · intro removal line member isCode
    obtain ⟨old, -, rfl⟩ := exists_of_mem_lines_mapLines plain settling.free member
    rw [selfless removal] at isCode ⊢
    refine not_mentionsSelf_withoutSelfReferences ?_
    by_contra comment
    rw [Bool.not_eq_false] at comment
    rw [withoutSelfReferences, if_pos comment, comment] at isCode
    exact absurd isCode (by decide)

theorem run_run_removeSelfReferences :
    Step.removeSelfReferences.IsLinewise ∧
      '\r' ∉ ("  // this.a\nx = $B.this.fthis.c(D.this.e);" : Text) ∧
      ∃ outcome, Step.removeSelfReferences.run "  // this.a\nx = $B.this.fthis.c(D.this.e);" =
          .ok outcome ∧
        outcome.text = "  // this.a\nx = $fthis.c(e);" ∧
        Step.removeSelfReferences.run outcome.text = .ok outcome ∧
        (lines outcome.text)[0]? = some ("  // this.a" : Text) ∧
        ¬MentionsSelf "x = $fthis.c(e);" := by
  have plain : '\r' ∉ ("  // this.a\nx = $B.this.fthis.c(D.this.e);" : Text) := by decide +kernel
  obtain ⟨outcome, ran, again, comments, clear⟩ :=
    @run_run_of_isLinewise .removeSelfReferences _ trivial plain
  have text : outcome.text = "  // this.a\nx = $fthis.c(e);" := by
    rw [← Except.ok.inj ran]
    decide +kernel
  refine ⟨trivial, plain, outcome, ran, text, again, ?_, ?_⟩
  · exact comments 0 "  // this.a" (by decide +kernel) (by decide +kernel)
  · exact clear rfl _ (by rw [text]; decide +kernel) (by decide +kernel)

end Unpacking.Stage
