import Unpacking.Proofs.Line.Pieces
import Unpacking.Proofs.Line.Uncovering
import Unpacking.Proofs.Reflection.Placeholder
import Unpacking.Proofs.Stage.Inert
import Unpacking.Proofs.Stage.StaticMember
import Unpacking.Stage.Step

/-!
The braces of the lines in force. A stage that changes the structure of a class puts a text in the
place of each line, with the braces of the line. Braces get lost where a line of code becomes a
comment: the depth at the end of the text falls by what these lines open. Main statement:
`liveDepth_of_run`.
-/

namespace Unpacking.Stage

open Text Line

variable {text rest : Text} {line : Line}

/-! ### The base class -/

theorem braceBalance_extendsApplication? (read : extendsApplication? text = some rest) :
    braceBalance rest = braceBalance text := by
  simp only [extendsApplication?, Option.bind_eq_bind, Option.bind_eq_some_iff] at read
  obtain ⟨first, blanks, second, clause, third, moreBlanks, last⟩ := read
  rw [braceBalance_after? last (by decide), braceBalance_getD_after? (by decide),
    braceBalance_afterBlanks? moreBlanks, braceBalance_after? clause (by decide),
    braceBalance_afterBlanks? blanks]

theorem braceBalance_overrideNote? (read : overrideNote? text = some rest) :
    braceBalance rest = braceBalance text := by
  simp only [overrideNote?, Option.bind_eq_bind, Option.bind_eq_some_iff, Option.pure_def,
    Option.some.injEq] at read
  obtain ⟨first, sign, second, slashes, third, package, rfl⟩ := read
  rw [braceBalance_dropWhile (by decide) (by decide), braceBalance_after? package (by decide),
    braceBalance_trimStart, braceBalance_after? slashes (by decide), braceBalance_trimStart,
    braceBalance_after? sign (by decide)]

theorem braceBalance_of_isOverrideNote (note : isOverrideNote line = true) :
    braceBalance line = 0 := by
  unfold isOverrideNote at note
  split at note
  · rename_i rest found
    rw [← braceBalance_trimStart, ← braceBalance_overrideNote? found, ← braceBalance_trimStart,
      List.isEmpty_iff.mp note]
    rfl
  · simp at note

/-- A pattern that matches neither from the indentation of a comment on nor from a slash on leaves
its slashes. -/
theorem isLineComment_replaceFirst {pattern : Pattern}
    (indented : ∀ {before line}, isLineComment line = true → pattern before line = none)
    (slash : ∀ {before rest}, pattern before ('/' :: rest) = none)
    (comment : isLineComment line = true) :
    isLineComment (pattern.replaceFirst [] line) = true := by
  have first (before : Option Char) :
      isLineComment (Pattern.replaceFirstFrom pattern [] before line) = true := by
    induction line generalizing before with
    | nil => simp [isLineComment, trimStart, begins] at comment
    | cons c rest inductionHypothesis =>
        rw [Pattern.replaceFirstFrom, indented comment]
        cases blank : isBlank c with
        | true =>
            rw [isLineComment_cons blank] at comment ⊢
            exact inductionHypothesis comment (some c)
        | false =>
            obtain ⟨rfl, second⟩ := (isLineComment_cons_iff blank).mp comment
            obtain ⟨more, rfl⟩ := List.head?_eq_some_iff.mp second
            rw [Pattern.replaceFirstFrom, slash]
            exact isLineComment_slashes _
  exact first none

theorem extendsApplication?_of_isLineComment (comment : isLineComment line = true) :
    extendsApplication? line = none := by
  rw [Option.eq_none_iff_forall_ne_some]
  intro rest read
  simp only [extendsApplication?, Option.bind_eq_bind, Option.bind_eq_some_iff] at read
  obtain ⟨first, blanks, second, clause, -⟩ := read
  obtain ⟨indentation, rfl, -, blank, flush⟩ := afterBlanks?_eq_some_iff.mp blanks
  rw [isLineComment, trimStart_append blank flush, after?_eq_some clause] at comment
  simp [begins] at comment

theorem isLineComment_withoutBaseClass (comment : isLineComment line = true) :
    isLineComment (withoutBaseClass line) = true := by
  have noClause {before : Option Char} {text : Text} (nothing : extendsApplication? text = none) :
      extendsClause before text = none := by
    simp [extendsClause, Pattern.toBoundary, Pattern.ofReader, nothing]
  apply isLineComment_replaceFirst
  · intro before line comment
    cases line with
    | nil => rfl
    | cons c line =>
        have other : c ≠ '@' := by
          rintro rfl
          simp [isLineComment_cons_iff (by decide : isBlank '@' = false)] at comment
        simp [Pattern.ofReader, overrideNote?, after?, Ne.symm other]
  · intro before rest
    rfl
  · apply isLineComment_replaceFirst
    · intro before line comment
      exact noClause (extendsApplication?_of_isLineComment comment)
    · intro before rest
      exact noClause rfl
    · exact comment

theorem braceBalance_withoutBaseClass (line : Line) :
    braceBalance (withoutBaseClass line) = braceBalance line := by
  have clause {before : Option Char} {text : Text} {size : Nat}
      (found : extendsClause before text = some size) :
      braceBalance (text.drop size) = braceBalance text := by
    apply braceBalance_extendsApplication?
    apply Pattern.ofReader_eq_some _ (Pattern.of_toBoundary found).1
    intro text rest read
    obtain ⟨c, middle, -, rfl⟩ := extendsApplication?_eq_some read
    exact List.suffix_append _ rest
  have note {before : Option Char} {text : Text} {size : Nat}
      (found : Pattern.ofReader overrideNote? before text = some size) :
      braceBalance (text.drop size) = braceBalance text := by
    apply braceBalance_overrideNote?
    apply Pattern.ofReader_eq_some _ found
    intro text rest read
    obtain ⟨-, middle, rfl⟩ := overrideNote?_eq_some read
    exact List.suffix_append _ rest
  rw [withoutBaseClass, Pattern.braceBalance_replaceFirst note,
    Pattern.braceBalance_replaceFirst clause]

theorem isPiece_withoutBaseClass (unbroken : '\n' ∉ line) :
    IsPiece line (withoutBaseClass line) where
  balance := braceBalance_withoutBaseClass line
  comment := by
    intro comment
    have inside : (withoutBaseClass line).Sublist line :=
      (Pattern.replaceFirst_sublist (Pattern.ofReader overrideNote?) _).trans
        (Pattern.replaceFirst_sublist extendsClause line)
    rw [liveDepth_of_unbroken fun member => unbroken (inside.mem member),
      liveBalance_of_isLineComment (isLineComment_withoutBaseClass comment)]

/-- The pieces of a text without its base class: override notes on lines of their own are gone. -/
theorem replaces_stripBaseClass (text : Text) :
    Replaces text (((lines text).filter fun line => !isOverrideNote line).map
      fun line => (line, withoutBaseClass line)) (stripBaseClass text) where
  written := by
    rw [List.map_map]
    rfl
  covers := by
    rw [List.map_map, liveDepth, liveSteps]
    generalize lines text = block
    induction block with
    | nil => rfl
    | cons line block inductionHypothesis =>
        rw [List.filter_cons]
        cases note : isOverrideNote line with
        | false => simpa using inductionHypothesis
        | true =>
            have bare : liveBalance line = 0 := by
              rw [liveBalance, braceBalance_of_isOverrideNote note, ite_self]
            simpa [bare] using inductionHypothesis
  each := by
    intro piece member
    obtain ⟨line, inside, rfl⟩ := List.mem_map.mp member
    exact isPiece_withoutBaseClass ((isCut_lines text).unbroken line (List.mem_filter.mp inside).1)

/-! ### Lines that are replaced one by one -/

/-- The pieces of lines that are replaced one by one. -/
theorem replaces_mapLines {change : Line → Line} (text : Text)
    (each : ∀ line ∈ lines text, IsPiece line (change line)) :
    Replaces text ((lines text).map fun line => (line, change line)) (mapLines change text) where
  written := by
    rw [List.map_map]
    rfl
  covers := by
    rw [List.map_map]
    rfl
  each := by
    intro piece member
    obtain ⟨line, inside, rfl⟩ := List.mem_map.mp member
    exact each line inside

theorem isLineComment_of_isSuperclassCall (call : isSuperclassCall line = true) :
    isLineComment line = false := by
  unfold isSuperclassCall at call
  split at call
  · rename_i rest found
    rw [isLineComment, after?_eq_some found]
    rfl
  · simp at call

theorem commentedCall_eq (call : isSuperclassCall line = true) :
    withoutSuperclassCall line =
      indentation line ++ ("// " ++ (trimStart line ++ (" " ++ superclassMarker))) := by
  rw [withoutSuperclassCall, if_pos call]
  simp only [List.append_assoc]

theorem isLineComment_commentedCall (call : isSuperclassCall line = true) :
    isLineComment (withoutSuperclassCall line) = true := by
  rw [commentedCall_eq call, isLineComment, Reflection.trimStart_indentation_append]
  exact isLineComment_slashes _

theorem braceBalance_indentation (line : Line) : braceBalance (indentation line) = 0 :=
  braceBalance_of_class (fun c member => List.mem_takeWhile_imp member) (by decide) (by decide)

theorem braceBalance_commentedCall (call : isSuperclassCall line = true) :
    braceBalance (withoutSuperclassCall line) = braceBalance line := by
  have lead : braceBalance ("// " : Text) = 0 := by decide
  have trailer : braceBalance ((" " : Text) ++ superclassMarker) = 0 := by decide +kernel
  rw [commentedCall_eq call, braceBalance_append, braceBalance_append, braceBalance_append,
    braceBalance_indentation, lead, trailer, braceBalance_trimStart]
  omega

theorem not_mem_commentedCall {c : Char} (call : isSuperclassCall line = true)
    (lead : c ∉ ("// " : Text)) (trailer : c ∉ (" " : Text) ++ superclassMarker) (free : c ∉ line) :
    c ∉ withoutSuperclassCall line := by
  have inIndentation : c ∉ indentation line := fun member =>
    free ((List.takeWhile_prefix _).mem member)
  have inRest : c ∉ trimStart line := fun member => free ((trimStart_suffix line).mem member)
  rw [commentedCall_eq call, List.mem_append, List.mem_append, List.mem_append]
  tauto

theorem unbroken_commentedCall (call : isSuperclassCall line = true) (unbroken : '\n' ∉ line) :
    '\n' ∉ withoutSuperclassCall line :=
  not_mem_commentedCall call (by decide) (by decide +kernel) unbroken

theorem isPiece_withoutSuperclassCall (unbroken : '\n' ∉ line) :
    IsPiece line (withoutSuperclassCall line) := by
  cases call : isSuperclassCall line with
  | false =>
      rw [withoutSuperclassCall, if_neg (by simp [call])]
      exact .refl unbroken
  | true =>
      exact .of_isLineComment (braceBalance_commentedCall call)
        (unbroken_commentedCall call unbroken) (isLineComment_commentedCall call)

theorem isPiece_commentOut (unbroken : '\n' ∉ line) : IsPiece line (commentOut line) := by
  have lead : braceBalance ("// " : Text) = 0 := by decide
  apply IsPiece.of_isLineComment
  · rw [commentOut, braceBalance_append, lead, Int.zero_add]
  · simpa [commentOut] using unbroken
  · exact isLineComment_slashes _

theorem isPiece_withoutPackage (unbroken : '\n' ∉ line) : IsPiece line (withoutPackage line) := by
  unfold withoutPackage
  split
  · exact isPiece_commentOut unbroken
  · exact .refl unbroken

theorem isPiece_withoutPlatformImport (namespaces : List Text) (unbroken : '\n' ∉ line) :
    IsPiece line (withoutPlatformImport namespaces line) := by
  unfold withoutPlatformImport
  split
  · split
    · exact isPiece_commentOut unbroken
    · exact .refl unbroken
  · exact .refl unbroken

theorem braceBalance_qualifiedSelf? (read : qualifiedSelf? text = some rest) :
    braceBalance rest = braceBalance text := by
  cases text with
  | nil => simp [qualifiedSelf?] at read
  | cons c text =>
      rw [qualifiedSelf?] at read
      split at read
      · rename_i start
        have other : ¬(c = '{' ∨ c = '}') := by
          rintro (rfl | rfl)
          · exact absurd start (by decide)
          · exact absurd start (by decide)
        rw [braceBalance_after? read (by decide), braceBalance_dropWhile (by decide) (by decide),
          braceBalance_cons, braceStep_of_not_brace other, Int.zero_add]
      · simp at read

theorem braceBalance_selfReference {before : Option Char} {size : Nat}
    (found : selfReference before text = some size) : braceBalance (text.take size) = 0 := by
  have behind : braceBalance (text.drop size) = braceBalance text := by
    rcases (selfReference_eq_some found).2 with qualified | plain
    · exact braceBalance_qualifiedSelf? qualified
    · exact braceBalance_after? plain (by decide)
  have whole := braceBalance_append (text.take size) (text.drop size)
  rw [List.take_append_drop] at whole
  omega

theorem isPiece_withoutSelfReferences (unbroken : '\n' ∉ line) :
    IsPiece line (withoutSelfReferences line) := by
  unfold withoutSelfReferences
  cases comment : isLineComment line with
  | true => exact .refl unbroken
  | false =>
      constructor
      · apply Pattern.braceBalance_replaceAll
        intro before text size found
        exact (braceBalance_selfReference found).symm
      · intro isComment
        simp [comment] at isComment

/-! ### Static members -/

/-- The modifier does not turn a line into a comment. -/
theorem isLineComment_insertStatic {size : Nat} (isCode : isLineComment line = false) :
    isLineComment (insertStatic line size) = false := by
  rw [Bool.eq_false_iff] at isCode ⊢
  intro comment
  apply isCode
  induction line generalizing size with
  | nil => simp [insertStatic, isLineComment_cons_iff (by decide : isBlank 's' = false)] at comment
  | cons c rest inductionHypothesis =>
      cases size with
      | zero =>
          simp [insertStatic, isLineComment_cons_iff (by decide : isBlank 's' = false)] at comment
      | succ size =>
          change isLineComment (c :: insertStatic rest size) = true at comment
          cases blank : isBlank c with
          | true =>
              rw [isLineComment_cons blank] at comment isCode ⊢
              exact inductionHypothesis isCode comment
          | false =>
              obtain ⟨rfl, second⟩ := (isLineComment_cons_iff blank).mp comment
              refine (isLineComment_cons_iff blank).mpr ⟨rfl, ?_⟩
              cases rest with
              | nil => simp [insertStatic] at second
              | cons d rest =>
                  cases size with
                  | zero => simp [insertStatic] at second
                  | succ size => exact second

theorem isPiece_insertStatic {size : Nat} (isCode : isLineComment line = false) :
    IsPiece line (insertStatic line size) where
  balance := braceBalance_insertStatic line size
  comment := fun comment => by simp [isCode] at comment

theorem makeFieldStatic_cases (line : Line) :
    makeFieldStatic line = line ∨
      isLineComment line = false ∧ ∃ size, makeFieldStatic line = insertStatic line size := by
  unfold makeFieldStatic
  split
  · exact .inl rfl
  · rename_i isCode
    have live := isLineComment_of_isCommentOrImport (by simpa using isCode)
    split
    · split
      · exact .inl rfl
      · exact .inr ⟨live, _, rfl⟩
    · exact .inl rfl

theorem commentDepth_of_isCode (unbroken : '\n' ∉ line) (isCode : isLineComment line = false) :
    commentDepth line = 0 := by
  rw [commentDepth_of_unbroken unbroken, commentBalance, if_neg (by simp [isCode])]

section Inserted

variable {change : Line → Line}

theorem isPiece_of_cases (cases : change line = line ∨
      isLineComment line = false ∧ ∃ size, change line = insertStatic line size)
    (unbroken : '\n' ∉ line) : IsPiece line (change line) := by
  rcases cases with same | ⟨isCode, size, same⟩
  · rw [same]
    exact .refl unbroken
  · rw [same]
    exact isPiece_insertStatic isCode

theorem commentDepth_of_cases (cases : change line = line ∨
      isLineComment line = false ∧ ∃ size, change line = insertStatic line size)
    (unbroken : '\n' ∉ line) (isCode : isLineComment line = false) :
    commentDepth (change line) = 0 := by
  rcases cases with same | ⟨-, size, same⟩
  · rw [same]
    exact commentDepth_of_isCode unbroken isCode
  · have inserted : '\n' ∉ insertStatic line size := by
      rw [mem_insertStatic, not_or]
      exact ⟨unbroken, by decide⟩
    rw [same]
    exact commentDepth_of_isCode inserted (isLineComment_insertStatic isCode)

end Inserted

/-! ### The entry point -/

theorem braceBalance_contextHeader? {header : ContextHeader}
    (found : contextHeader? line = some header) :
    braceBalance header.parameter = 0 ∧ braceBalance header.rest = braceBalance line := by
  simp only [contextHeader?, Option.bind_eq_bind, Option.bind_eq_some_iff, Option.pure_def,
    Option.some.injEq, Prod.exists] at found
  obtain ⟨first, void, second, blanks, third, name, fourth, opened, fifth, type, sixth, moreBlanks,
    parameter, last, taken, rest, closed, rfl⟩ := found
  refine ⟨braceBalance_of_class (run?_eq_some taken).2.2 (by decide) (by decide), ?_⟩
  have isFinal : braceBalance (((oneOf? ["final"] (trimStart fourth)).map Prod.snd).getD
      (trimStart fourth)) = braceBalance (trimStart fourth) := by
    cases found : oneOf? ["final"] (trimStart fourth) with
    | none => rfl
    | some read => exact braceBalance_oneOf? (by decide) found
  rw [braceBalance_after? closed (by decide), braceBalance_trimStart,
    braceBalance_run? taken (by decide) (by decide), braceBalance_afterBlanks? moreBlanks,
    braceBalance_after? type (by decide), braceBalance_getD_after? (by decide), isFinal,
    braceBalance_trimStart, braceBalance_after? opened (by decide), braceBalance_trimStart,
    braceBalance_after? name (by decide), braceBalance_afterBlanks? blanks,
    braceBalance_after? void (by decide),
    braceBalance_afterItems (shrinks_oneOf? _) (braceBalance_oneOf? (by decide)),
    braceBalance_trimStart]

theorem braceBalance_replaceParameter {parameter standIn : Text}
    (bareParameter : braceBalance parameter = 0) (bare : braceBalance standIn = 0) (text : Text) :
    braceBalance (replaceParameter parameter standIn text).1 = braceBalance text := by
  apply Pattern.braceBalance_replaceAll
  intro before text size found
  rw [Pattern.take_of_wholeWord found, bareParameter, bare]

theorem isPiece_replaceInBody {parameter standIn : Text} (bareParameter : braceBalance parameter = 0)
    (bare : braceBalance standIn = 0) {lines : List Line}
    (unbroken : ∀ line ∈ lines, '\n' ∉ line) (depth : Int) :
    List.Forall₂ IsPiece lines (replaceInBody parameter standIn depth lines).1 := by
  induction lines generalizing depth with
  | nil => exact .nil
  | cons line rest inductionHypothesis =>
      have others (other : Line) (member : other ∈ rest) : '\n' ∉ other :=
        unbroken other (by simp [member])
      have changed : IsPiece line (if isLineComment line then (line, 0)
          else replaceParameter parameter standIn line).1 := by
        cases comment : isLineComment line with
        | true => exact .refl (unbroken line (by simp))
        | false =>
            exact ⟨braceBalance_replaceParameter bareParameter bare line, by simp [comment]⟩
      simp only [replaceInBody]
      split
      · exact .cons changed (List.forall₂_same.mpr fun other member => .refl (others other member))
      · exact .cons changed (inductionHypothesis others _)

theorem isPiece_replaceEntryPoint {standIn : Text} (bare : braceBalance standIn = 0)
    {lines : List Line} (unbroken : ∀ line ∈ lines, '\n' ∉ line) :
    List.Forall₂ IsPiece lines (replaceEntryPoint standIn lines).1 := by
  induction lines with
  | nil => exact .nil
  | cons line rest inductionHypothesis =>
      have others (other : Line) (member : other ∈ rest) : '\n' ∉ other :=
        unbroken other (by simp [member])
      rw [replaceEntryPoint]
      split
      · exact .cons (.refl (unbroken line (by simp))) (inductionHypothesis others)
      · rename_i header found
        obtain ⟨isCode, isHeader⟩ : isCommentOrImport line = false ∧
            contextHeader? line = some header := by
          rw [codeHeader?] at found
          split at found
          · simp at found
          · rename_i isCode
            exact ⟨by simpa using isCode, found⟩
        obtain ⟨bareParameter, same⟩ := braceBalance_contextHeader? isHeader
        have indented := (contextHeader?_eq_some isHeader).2.1
        have main : braceBalance ("public static void main(String[] args)" : Text) = 0 := by
          decide +kernel
        have changed : IsPiece line (header.indentation ++
            ("public static void main(String[] args)" : Text) ++
            (replaceParameter header.parameter standIn header.rest).1) := by
          constructor
          · rw [braceBalance_append, braceBalance_append, main, indented, braceBalance_indentation,
              braceBalance_replaceParameter bareParameter bare, same]
            omega
          · intro comment
            simp [isLineComment_of_isCommentOrImport isCode] at comment
        dsimp only
        split
        · exact .cons changed (isPiece_replaceInBody bareParameter bare others _)
        · exact .cons changed (List.forall₂_same.mpr fun other member => .refl (others other member))

theorem replaces_entryPoint {standIn : Text} (bare : braceBalance standIn = 0) (text : Text) :
    Replaces text ((lines text).zip (replaceEntryPoint standIn (lines text)).1)
      (entryPoint standIn text).text := by
  have each := isPiece_replaceEntryPoint bare (isCut_lines text).unbroken
  have size := each.length_eq
  constructor
  · rw [List.map_snd_zip (Nat.le_of_eq size.symm)]
    rfl
  · have old : ((lines text).zip (replaceEntryPoint standIn (lines text)).1).map Prod.fst =
        lines text := List.map_fst_zip (Nat.le_of_eq size)
    rw [liveDepth, liveSteps]
    conv_rhs => rw [← old, List.map_map]
    rfl
  · intro piece member
    exact (List.forall₂_iff_zip.mp each).2 member

/-! ### Lines of code that become comments -/

/-- A line that stands in the place of another one. Where code becomes a comment, there is a reason
for it. -/
structure HasReason (reason : Line → Prop) (line piece : Line) : Prop where
  unbroken : '\n' ∉ piece
  reason : isLineComment line = false → isLineComment piece = true → reason line

section Reasons

variable {reason : Line → Prop} {piece : Line}

theorem HasReason.refl (unbroken : '\n' ∉ line) : HasReason reason line line :=
  ⟨unbroken, fun isCode comment => by simp [isCode] at comment⟩

theorem HasReason.of_commentDepth (hasReason : HasReason reason line piece)
    (isCode : isLineComment line = false) (silenced : commentDepth piece ≠ 0) : reason line := by
  apply hasReason.reason isCode
  by_contra live
  exact silenced (commentDepth_of_isCode hasReason.unbroken (Bool.eq_false_iff.mpr live))

theorem hasReason_withoutBaseClass (unbroken : '\n' ∉ line) :
    HasReason (fun line => StandsBeforeSlash extendsClause none line ∨
      StandsBeforeSlash (Pattern.ofReader overrideNote?) none (extendsClause.replaceFirst [] line))
      line (withoutBaseClass line) where
  unbroken member := unbroken
    (((Pattern.replaceFirst_sublist (Pattern.ofReader overrideNote?) _).trans
      (Pattern.replaceFirst_sublist extendsClause line)).mem member)
  reason isCode comment := by
    cases between : isLineComment (extendsClause.replaceFirst [] line) with
    | true => exact .inl (standsBeforeSlash_of_replaceFirst isCode between)
    | false => exact .inr (standsBeforeSlash_of_replaceFirst between comment)

theorem hasReason_withoutSelfReferences (unbroken : '\n' ∉ line) :
    HasReason (StandsBeforeSlash selfReference none) line (withoutSelfReferences line) := by
  cases isCode : isLineComment line with
  | true =>
      rw [withoutSelfReferences, if_pos isCode]
      exact .refl unbroken
  | false =>
      rw [withoutSelfReferences, if_neg (by simp [isCode])]
      refine ⟨fun member => unbroken ((Pattern.replaceAll_sublist selfReference line).mem member),
        fun isCode comment => ?_⟩
      exact (standsBeforeSlash_of_replaceAll (by simp) isCode comment).2

/-- A use of the parameter stands before a slash, and the stand-in is blank. -/
def IsBlankedUse (standIn parameter : Text) (line : Line) : Prop :=
  (∀ c ∈ standIn, isBlank c = true) ∧ StandsBeforeSlash (Pattern.wholeWord parameter) none line

variable {standIn : Text} (noSlash : '/' ∉ standIn) (oneLine : '\n' ∉ standIn)

include noSlash oneLine

theorem hasReason_replaceInBody {parameter : Text} {lines : List Line}
    (unbroken : ∀ line ∈ lines, '\n' ∉ line) (depth : Int) :
    List.Forall₂ (HasReason (IsBlankedUse standIn parameter)) lines
      (replaceInBody parameter standIn depth lines).1 := by
  induction lines generalizing depth with
  | nil => exact .nil
  | cons line rest inductionHypothesis =>
      obtain ⟨first, others⟩ := List.forall_mem_cons.mp unbroken
      have changed : HasReason (IsBlankedUse standIn parameter) line
          (if isLineComment line then (line, 0)
            else replaceParameter parameter standIn line).1 := by
        cases isCode : isLineComment line with
        | true => exact .refl first
        | false =>
            refine ⟨fun member => ?_, fun isCode =>
              standsBeforeSlash_of_replaceAll noSlash isCode⟩
            exact (Pattern.mem_of_mem_replaceAll member).elim first oneLine
      simp only [replaceInBody]
      split
      · exact .cons changed (List.forall₂_same.mpr fun other member => .refl (others other member))
      · exact .cons changed (inductionHypothesis others _)

omit noSlash in
/-- The header of the main method is code. -/
theorem hasReason_header {header : ContextHeader} (isHeader : contextHeader? line = some header)
    (unbroken : '\n' ∉ line) :
    HasReason reason line (header.indentation ++ "public static void main(String[] args)" ++
      (replaceParameter header.parameter standIn header.rest).1) := by
  obtain ⟨-, indented, front, whole⟩ := contextHeader?_eq_some isHeader
  rw [indented, List.append_assoc]
  constructor
  · intro member
    rcases List.mem_append.mp member with inIndentation | inRest
    · exact unbroken ((List.takeWhile_prefix _).mem inIndentation)
    · rcases List.mem_append.mp inRest with inMain | inTail
      · exact absurd inMain (by decide +kernel)
      · refine (Pattern.mem_of_mem_replaceAll inTail).elim (fun inside => unbroken ?_) oneLine
        rw [whole]
        simp [inside]
  · intro isCode comment
    rw [isLineComment, Reflection.trimStart_indentation_append] at comment
    exact absurd comment (by simp [trimStart, begins, show isBlank 'p' = false from by decide])

theorem hasReason_replaceEntryPoint {lines : List Line} (unbroken : ∀ line ∈ lines, '\n' ∉ line) :
    List.Forall₂ (HasReason fun line => ∃ parameter,
      (replaceEntryPoint standIn lines).2.1 = some parameter ∧
        IsBlankedUse standIn parameter line) lines (replaceEntryPoint standIn lines).1 := by
  induction lines with
  | nil => exact .nil
  | cons line rest inductionHypothesis =>
      obtain ⟨first, others⟩ := List.forall_mem_cons.mp unbroken
      rw [replaceEntryPoint]
      split
      · exact .cons (.refl first) (inductionHypothesis others)
      · rename_i header found
        have isHeader : contextHeader? line = some header := by
          rw [codeHeader?] at found
          split at found
          · simp at found
          · exact found
        dsimp only
        split
        · refine .cons (hasReason_header oneLine isHeader first)
            ((hasReason_replaceInBody noSlash oneLine others _).imp fun line piece hasReason => ?_)
          exact ⟨hasReason.unbroken, fun isCode comment =>
            ⟨_, rfl, hasReason.reason isCode comment⟩⟩
        · exact .cons (hasReason_header oneLine isHeader first)
            (List.forall₂_same.mpr fun other member => .refl (others other member))

end Reasons

/-! ### The stages -/

/-- The lines of a text and what a stage that changes the structure puts in their places. -/
def Step.pieces (lines : List Line) : Step → List (Line × Text)
  | .stripBaseClass =>
    (lines.filter fun line => !isOverrideNote line).map fun line => (line, withoutBaseClass line)
  | .commentSuperclassCalls => lines.map fun line => (line, withoutSuperclassCall line)
  | .entryPoint standIn => lines.zip (replaceEntryPoint standIn lines).1
  | .commentPackageLines => lines.map fun line => (line, withoutPackage line)
  | .makeMethodsStatic => lines.map fun line => (line, makeMethodStatic line)
  | .makeFieldsStatic => lines.map fun line => (line, makeFieldStatic line)
  | .removeSelfReferences => lines.map fun line => (line, withoutSelfReferences line)
  | .commentPlatformImports namespaces =>
    lines.map fun line => (line, withoutPlatformImport namespaces line)
  | .renameClass .. | .substitute .. | .removeReflection .. => []

/-- The stages that change the structure of a class; a stand-in has no braces. -/
def Step.IsStructural : Step → Prop
  | .renameClass .. | .substitute .. | .removeReflection .. => False
  | .entryPoint standIn => '{' ∉ standIn ∧ '}' ∉ standIn
  | _ => True

/-- The stages that turn no line of code with a brace into a comment. -/
def Step.KeepsCode : Step → Prop
  | .commentPackageLines | .makeMethodsStatic | .makeFieldsStatic | .commentPlatformImports _ => True
  | _ => False

/-- The lines of code that a stage may turn into comments: calls of the superclass, and lines on
which what it drops stands right before a slash. A stand-in may bring a comment with it. -/
def Step.MaySilence (text : Text) (line : Line) : Step → Prop
  | .stripBaseClass =>
    StandsBeforeSlash extendsClause none line ∨
      StandsBeforeSlash (Pattern.ofReader overrideNote?) none (extendsClause.replaceFirst [] line)
  | .commentSuperclassCalls => isSuperclassCall line = true
  | .entryPoint standIn =>
    '/' ∈ standIn ∨ '\n' ∈ standIn ∨
      ∃ parameter, (Stage.entryPoint standIn text).parameter = some parameter ∧
        IsBlankedUse standIn parameter line
  | .removeSelfReferences => StandsBeforeSlash selfReference none line
  | _ => False

/-- The package lines and the imports of a text carry no brace. -/
def HasBareHeader (text : Text) : Prop :=
  ∀ line ∈ lines text, isPackageLine line = true ∨ (importLine? line).isSome = true →
    '{' ∉ line ∧ '}' ∉ line

theorem replaces_of_run {step : Step} (structural : step.IsStructural) (text : Text) :
    ∃ outcome, step.run text = .ok outcome ∧
      Replaces text (step.pieces (lines text)) outcome.text := by
  have unbroken := (isCut_lines text).unbroken
  cases step with
  | renameClass old new => exact structural.elim
  | substitute namespaces context imports => exact structural.elim
  | removeReflection terms => exact structural.elim
  | stripBaseClass => exact ⟨_, rfl, replaces_stripBaseClass text⟩
  | commentSuperclassCalls =>
      exact ⟨_, rfl, replaces_mapLines text fun line member =>
        isPiece_withoutSuperclassCall (unbroken line member)⟩
  | entryPoint standIn =>
      exact ⟨_, rfl, replaces_entryPoint (braceBalance_of_bare structural.1 structural.2) text⟩
  | commentPackageLines =>
      exact ⟨_, rfl, replaces_mapLines text fun line member =>
        isPiece_withoutPackage (unbroken line member)⟩
  | makeMethodsStatic =>
      exact ⟨_, rfl, replaces_mapLines text fun line member =>
        isPiece_of_cases (makeMethodStatic_cases line) (unbroken line member)⟩
  | makeFieldsStatic =>
      exact ⟨_, rfl, replaces_mapLines text fun line member =>
        isPiece_of_cases (makeFieldStatic_cases line) (unbroken line member)⟩
  | removeSelfReferences =>
      exact ⟨_, rfl, replaces_mapLines text fun line member =>
        isPiece_withoutSelfReferences (unbroken line member)⟩
  | commentPlatformImports namespaces =>
      exact ⟨_, rfl, replaces_mapLines text fun line member =>
        isPiece_withoutPlatformImport namespaces (unbroken line member)⟩

theorem silenced_eq_zero {pieces : List (Line × Text)}
    (kept : ∀ piece ∈ pieces, isLineComment piece.1 = false → commentDepth piece.2 = 0) :
    silenced pieces = 0 := by
  apply List.sum_eq_zero
  intro braces member
  obtain ⟨piece, inside, rfl⟩ := List.mem_map.mp member
  cases comment : isLineComment piece.1 with
  | true => rfl
  | false => exact kept piece inside comment

theorem commentDepth_commentOut {line : Line} (unbroken : '\n' ∉ line) (noOpening : '{' ∉ line)
    (noClosing : '}' ∉ line) : commentDepth (commentOut line) = 0 := by
  have unbrokenAgain : '\n' ∉ commentOut line := by
    simpa [commentOut] using unbroken
  rw [commentDepth_of_unbroken unbrokenAgain, commentBalance,
    (isPiece_commentOut unbroken).balance, braceBalance_of_bare noOpening noClosing, ite_self]

/-- Package lines and imports without braces can be commented out, and the modifier `static` is no
comment. -/
theorem commentDepth_of_keepsCode {step : Step} (keeps : step.KeepsCode)
    (bare : HasBareHeader text) : ∀ piece ∈ step.pieces (lines text), isLineComment piece.1 = false →
      commentDepth piece.2 = 0 := by
  have unbroken := (isCut_lines text).unbroken
  have stays (line : Line) (member : line ∈ lines text) (isCode : isLineComment line = false) :
      commentDepth line = 0 :=
    commentDepth_of_isCode (unbroken line member) isCode
  have commented (line : Line) (member : line ∈ lines text)
      (header : isPackageLine line = true ∨ (importLine? line).isSome = true) :
      commentDepth (commentOut line) = 0 :=
    commentDepth_commentOut (unbroken line member) (bare line member header).1
      (bare line member header).2
  cases step with
  | renameClass old new => exact keeps.elim
  | substitute namespaces context imports => exact keeps.elim
  | removeReflection terms => exact keeps.elim
  | stripBaseClass => exact keeps.elim
  | commentSuperclassCalls => exact keeps.elim
  | entryPoint standIn => exact keeps.elim
  | removeSelfReferences => exact keeps.elim
  | commentPackageLines =>
      intro piece member isCode
      obtain ⟨line, inside, rfl⟩ := List.mem_map.mp member
      dsimp only [withoutPackage]
      split
      · rename_i header
        exact commented line inside (.inl header)
      · exact stays line inside isCode
  | commentPlatformImports namespaces =>
      intro piece member isCode
      obtain ⟨line, inside, rfl⟩ := List.mem_map.mp member
      dsimp only [withoutPlatformImport]
      split
      · rename_i name imported
        split
        · exact commented line inside (.inr (by simp [imported]))
        · exact stays line inside isCode
      · exact stays line inside isCode
  | makeMethodsStatic =>
      intro piece member isCode
      obtain ⟨line, inside, rfl⟩ := List.mem_map.mp member
      exact commentDepth_of_cases (makeMethodStatic_cases line) (unbroken line inside) isCode
  | makeFieldsStatic =>
      intro piece member isCode
      obtain ⟨line, inside, rfl⟩ := List.mem_map.mp member
      exact commentDepth_of_cases (makeFieldStatic_cases line) (unbroken line inside) isCode

/-- Every line of code whose braces a stage silences is one that it may silence. -/
theorem maySilence_of_commentDepth {step : Step} (structural : step.IsStructural)
    (bare : HasBareHeader text) {piece : Line × Text} (member : piece ∈ step.pieces (lines text))
    (isCode : isLineComment piece.1 = false) (silenced : commentDepth piece.2 ≠ 0) :
    step.MaySilence text piece.1 := by
  have unbroken := (isCut_lines text).unbroken
  have keeps (kept : step.KeepsCode) : False :=
    silenced (commentDepth_of_keepsCode kept bare piece member isCode)
  cases step with
  | renameClass old new => exact structural.elim
  | substitute namespaces context imports => exact structural.elim
  | removeReflection terms => exact structural.elim
  | commentPackageLines => exact keeps trivial
  | commentPlatformImports namespaces => exact keeps trivial
  | makeMethodsStatic => exact keeps trivial
  | makeFieldsStatic => exact keeps trivial
  | stripBaseClass =>
      obtain ⟨line, inside, rfl⟩ := List.mem_map.mp member
      have hasReason := hasReason_withoutBaseClass (unbroken line (List.mem_filter.mp inside).1)
      exact hasReason.of_commentDepth isCode silenced
  | commentSuperclassCalls =>
      obtain ⟨line, inside, rfl⟩ := List.mem_map.mp member
      by_contra other
      have same : withoutSuperclassCall line = line := if_neg other
      rw [same] at silenced
      exact silenced (commentDepth_of_isCode (unbroken line inside) isCode)
  | removeSelfReferences =>
      obtain ⟨line, inside, rfl⟩ := List.mem_map.mp member
      exact (hasReason_withoutSelfReferences (unbroken line inside)).of_commentDepth isCode silenced
  | entryPoint standIn =>
      by_cases noSlash : '/' ∈ standIn
      · exact .inl noSlash
      · by_cases oneLine : '\n' ∈ standIn
        · exact .inr (.inl oneLine)
        · have each := hasReason_replaceEntryPoint noSlash oneLine unbroken
          exact .inr (.inr (((List.forall₂_iff_zip.mp each).2 member).of_commentDepth isCode
            silenced))

theorem fst_mem_of_mem_pieces {step : Step} {piece : Line × Text}
    (member : piece ∈ step.pieces (lines text)) : piece.1 ∈ lines text := by
  cases step with
  | renameClass old new => simp [Step.pieces] at member
  | substitute namespaces context imports => simp [Step.pieces] at member
  | removeReflection terms => simp [Step.pieces] at member
  | entryPoint standIn => exact (List.of_mem_zip member).1
  | stripBaseClass =>
      obtain ⟨line, inside, rfl⟩ := List.mem_map.mp member
      exact (List.mem_filter.mp inside).1
  | _ =>
      obtain ⟨line, inside, rfl⟩ := List.mem_map.mp member
      exact inside

/-- Of the lines of code, the calls of the superclass become comments and no other line. -/
theorem silenced_commentSuperclassCalls (text : Text) :
    silenced (Step.commentSuperclassCalls.pieces (lines text)) =
      (((lines text).filter isSuperclassCall).map braceBalance).sum := by
  have here (line : Line) (unbroken : '\n' ∉ line) :
      (if isLineComment line then 0 else commentDepth (withoutSuperclassCall line)) =
        if isSuperclassCall line then braceBalance line else 0 := by
    cases call : isSuperclassCall line with
    | true =>
        rw [isLineComment_of_isSuperclassCall call, if_neg (by decide),
          commentDepth_of_unbroken (unbroken_commentedCall call unbroken), commentBalance,
          isLineComment_commentedCall call, braceBalance_commentedCall call]
    | false =>
        rw [withoutSuperclassCall, call, if_neg (by decide : ¬false = true),
          commentDepth_of_unbroken unbroken, commentBalance]
        cases isLineComment line <;> rfl
  have unbroken := (isCut_lines text).unbroken
  rw [silenced, Step.pieces, List.map_map]
  generalize lines text = block at unbroken
  induction block with
  | nil => rfl
  | cons line block inductionHypothesis =>
      have later := inductionHypothesis fun other member => unbroken other (by simp [member])
      rw [List.map_cons, List.sum_cons, later, Function.comp_apply, here line (unbroken line (by simp)),
        List.filter_cons]
      split
      · rw [List.map_cons, List.sum_cons]
      · exact Int.zero_add _

/-- A stage that changes the structure of a class lowers the depth by the braces of the lines that
it turns into comments, and by nothing else. Each of these lines is one that the stage may
silence. -/
theorem liveDepth_of_run {step : Step} {text : Text} (structural : step.IsStructural)
    (bare : HasBareHeader text) :
    ∃ outcome, step.run text = .ok outcome ∧
      liveDepth outcome.text = liveDepth text - silenced (step.pieces (lines text)) ∧
      (∀ piece ∈ step.pieces (lines text), isLineComment piece.1 = false →
        commentDepth piece.2 ≠ 0 → step.MaySilence text piece.1) ∧
      ((∀ line ∈ lines text, ¬step.MaySilence text line) →
        liveDepth outcome.text = liveDepth text) ∧
      (step.KeepsCode → liveDepth outcome.text = liveDepth text) ∧
      (step = .commentSuperclassCalls → liveDepth outcome.text =
        liveDepth text - (((lines text).filter isSuperclassCall).map braceBalance).sum) := by
  obtain ⟨outcome, ran, replaces⟩ := replaces_of_run structural text
  have falls := replaces.liveDepth_eq
  refine ⟨outcome, ran, falls, fun piece => maySilence_of_commentDepth structural bare,
    fun nowhere => ?_, fun keeps => ?_, ?_⟩
  · have kept : silenced (step.pieces (lines text)) = 0 := by
      refine silenced_eq_zero fun piece member isCode => ?_
      by_contra silenced
      exact nowhere piece.1 (fst_mem_of_mem_pieces member)
        (maySilence_of_commentDepth structural bare member isCode silenced)
    rw [falls, kept, Int.sub_zero]
  · rw [falls, silenced_eq_zero (commentDepth_of_keepsCode keeps bare), Int.sub_zero]
  · rintro rfl
    rw [falls, silenced_commentSuperclassCalls]

theorem liveDepth_of_run_entryPoint :
    HasBareHeader "import a.b;\nvoid attachBaseContext(Context c) \x7b\nc.run();\n\x7d" ∧
      ∃ outcome, (Step.entryPoint "new Stub()").run
          "import a.b;\nvoid attachBaseContext(Context c) \x7b\nc.run();\n\x7d" = .ok outcome ∧
        liveDepth outcome.text = 0 := by
  have bare : HasBareHeader
      "import a.b;\nvoid attachBaseContext(Context c) \x7b\nc.run();\n\x7d" := by
    unfold HasBareHeader
    decide +kernel
  obtain ⟨outcome, ran, falls, -⟩ := @liveDepth_of_run (.entryPoint "new Stub()") _
    ⟨by decide +kernel, by decide +kernel⟩ bare
  exact ⟨bare, outcome, ran, falls.trans (by decide +kernel)⟩

/-- A call of the superclass that opens a block takes its brace along. -/
theorem liveDepth_commentSuperclassCalls_block :
    HasBareHeader "void f() \x7b\nsuper.post(new A() \x7b\n\x7d);\n\x7d" ∧
      liveDepth "void f() \x7b\nsuper.post(new A() \x7b\n\x7d);\n\x7d" = 0 ∧
      liveDepth (commentSuperclassCalls
        "void f() \x7b\nsuper.post(new A() \x7b\n\x7d);\n\x7d") = -1 := by
  unfold HasBareHeader
  decide +kernel

end Unpacking.Stage
