import Unpacking.Proofs.Line.Basic
import Unpacking.Proofs.Text.Pattern

/-!
Lines of code that become comments when parts of them are replaced. The slashes stand on the line
from the start, so something that is replaced stands right before one of them. Main statements:
`standsBeforeSlash_of_replaceAll`, `standsBeforeSlash_of_replaceFirst`.
-/

namespace Unpacking.Line

open Text

/-- What a pattern finds on a line stands, up to blanks, right before a slash. -/
def StandsBeforeSlash (pattern : Pattern) (before : Option Char) (line : Text) : Prop :=
  ∃ front back size, line = front ++ back ∧ pattern (lastOr before front) back = some size ∧
    (trimStart (back.drop size)).head? = some '/'

variable {pattern : Pattern} {before : Option Char} {line standIn : Text}

theorem StandsBeforeSlash.append {front rest : Text}
    (stands : StandsBeforeSlash pattern (lastOr before front) rest) :
    StandsBeforeSlash pattern before (front ++ rest) := by
  obtain ⟨more, back, size, rfl, found, slash⟩ := stands
  exact ⟨front ++ more, back, size, by simp, by rwa [Pattern.lastOr_append], slash⟩

/-! ### Texts that begin with slashes -/

theorem head?_trimStart_of_head? {text : Text} (slash : text.head? = some '/') :
    (trimStart text).head? = some '/' := by
  obtain ⟨rest, rfl⟩ := List.head?_eq_some_iff.mp slash
  have solid : isBlank '/' = false := by decide
  simp [trimStart, solid]

theorem head?_trimStart_of_isLineComment (comment : isLineComment line = true) :
    (trimStart line).head? = some '/' := by
  rw [isLineComment, begins, List.isPrefixOf_iff_prefix] at comment
  obtain ⟨rest, same⟩ := comment
  rw [← same]
  rfl

/-- A slash behind blanks is not that of a text without slashes. -/
theorem of_head?_trimStart_append {front rest : Text} (free : '/' ∉ front)
    (slash : (trimStart (front ++ rest)).head? = some '/') :
    (∀ c ∈ front, isBlank c = true) ∧ (trimStart rest).head? = some '/' := by
  induction front with
  | nil => exact ⟨by simp, slash⟩
  | cons c front inductionHypothesis =>
      rw [List.mem_cons, not_or] at free
      cases blank : isBlank c with
      | true =>
          have behind : trimStart (c :: front ++ rest) = trimStart (front ++ rest) := by
            simp [trimStart, blank]
          rw [behind] at slash
          obtain ⟨blanks, later⟩ := inductionHypothesis free.2 slash
          exact ⟨List.forall_mem_cons.mpr ⟨blank, blanks⟩, later⟩
      | false =>
          simp only [trimStart, List.cons_append, List.dropWhile_cons, blank,
            Bool.false_eq_true, if_false, List.head?_cons, Option.some.injEq] at slash
          exact absurd slash.symm free.1

/-! ### Replacing -/

/-- Every match is replaced by the same text, which is blank and comes to stand before a slash. -/
def Uncovers (pattern : Pattern) (standIn : Text) (before : Option Char) (line : Text) : Prop :=
  (∀ c ∈ standIn, isBlank c = true) ∧ StandsBeforeSlash pattern before line

/-- The slashes at the front of a text were there before, or something was replaced before one of
them. -/
structure Uncovered (pattern : Pattern) (standIn : Text) (before : Option Char)
    (old new : Text) : Prop where
  slash : new.head? = some '/' → old.head? = some '/' ∨ Uncovers pattern standIn before old
  behindBlanks : (trimStart new).head? = some '/' →
    (trimStart old).head? = some '/' ∨ Uncovers pattern standIn before old
  comment : isLineComment new = true →
    isLineComment old = true ∨ Uncovers pattern standIn before old

theorem Uncovered.cons {c : Char} {old new : Text}
    (uncovered : Uncovered pattern standIn (some c) old new) :
    Uncovered pattern standIn before (c :: old) (c :: new) := by
  have later : Uncovers pattern standIn (some c) old →
      Uncovers pattern standIn before (c :: old) := fun uncovers =>
    ⟨uncovers.1, @StandsBeforeSlash.append pattern before [c] old uncovers.2⟩
  have trimmed (blank : isBlank c = true) (text : Text) :
      trimStart (c :: text) = trimStart text := by
    simp [trimStart, blank]
  constructor
  · exact fun slash => .inl slash
  · intro slash
    cases blank : isBlank c with
    | true =>
        rw [trimmed blank] at slash ⊢
        exact (uncovered.behindBlanks slash).imp_right later
    | false =>
        have kept (text : Text) : trimStart (c :: text) = c :: text := by simp [trimStart, blank]
        rw [kept] at slash ⊢
        exact .inl slash
  · intro comment
    cases blank : isBlank c with
    | true =>
        rw [isLineComment_cons blank] at comment ⊢
        exact (uncovered.comment comment).imp_right later
    | false =>
        obtain ⟨rfl, second⟩ := (isLineComment_cons_iff blank).mp comment
        rw [isLineComment_cons_iff blank]
        exact (uncovered.slash second).imp (fun slash => ⟨rfl, slash⟩) later

theorem Uncovered.matched {text new : Text} {size : Nat} (free : '/' ∉ standIn)
    (found : pattern before text = some size)
    (uncovered : Uncovered pattern standIn (lastOr before (text.take size)) (text.drop size) new) :
    Uncovered pattern standIn before text (standIn ++ new) := by
  -- Whatever is behind the match, the match itself stands before the slash, or a later one does.
  have uncovers (slash : (trimStart (standIn ++ new)).head? = some '/') :
      Uncovers pattern standIn before text := by
    obtain ⟨blanks, behind⟩ := of_head?_trimStart_append free slash
    rcases uncovered.behindBlanks behind with here | ⟨-, later⟩
    · exact ⟨blanks, [], text, size, rfl, found, here⟩
    · have whole := @StandsBeforeSlash.append pattern before _ _ later
      rw [List.take_append_drop] at whole
      exact ⟨blanks, whole⟩
  exact ⟨fun slash => .inr (uncovers (head?_trimStart_of_head? slash)),
    fun slash => .inr (uncovers slash),
    fun comment => .inr (uncovers (head?_trimStart_of_isLineComment comment))⟩

/-- A line of code that becomes a comment when all matches are replaced by a text without
slashes. -/
theorem standsBeforeSlash_of_replaceAll (free : '/' ∉ standIn) (isCode : isLineComment line = false)
    (comment : isLineComment (pattern.replaceAll (fun _ => standIn) line) = true) :
    (∀ c ∈ standIn, isBlank c = true) ∧ StandsBeforeSlash pattern none line := by
  have uncovered : Uncovered pattern standIn none line
      (pattern.replaceAll (fun _ => standIn) line) := by
    refine @Pattern.replaceFrom_induction pattern (fun _ => standIn) (Uncovered pattern standIn)
      ?_ ?_ ?_ line none
    · exact fun before => ⟨.inl, .inl, .inl⟩
    · exact fun before c rest new _ => .cons
    · exact fun before text size new found => .matched free found
  rcases uncovered.comment comment with wasComment | uncovers
  · simp [isCode] at wasComment
  · exact uncovers

theorem replaceFirst_cases (pattern : Pattern) (replacement text : Text) :
    pattern.replaceFirst replacement text = text ∨
      ∃ front back size, text = front ++ back ∧ pattern (lastOr none front) back = some size ∧
        pattern.replaceFirst replacement text = front ++ (replacement ++ back.drop size) := by
  have first (before : Option Char) :
      Pattern.replaceFirstFrom pattern replacement before text = text ∨
        ∃ front back size, text = front ++ back ∧ pattern (lastOr before front) back = some size ∧
          Pattern.replaceFirstFrom pattern replacement before text =
            front ++ (replacement ++ back.drop size) := by
    induction text generalizing before with
    | nil =>
        rw [Pattern.replaceFirstFrom]
        split
        · rename_i found
          obtain ⟨size, found⟩ := Option.isSome_iff_exists.mp found
          exact .inr ⟨[], [], size, rfl, found, by simp⟩
        · exact .inl rfl
    | cons c rest inductionHypothesis =>
        rw [Pattern.replaceFirstFrom]
        split
        · rename_i size found
          exact .inr ⟨[], c :: rest, size, rfl, found, rfl⟩
        · rcases inductionHypothesis (some c) with same | ⟨front, back, size, rfl, found, replaced⟩
          · exact .inl (by rw [same])
          · exact .inr ⟨c :: front, back, size, rfl, by rwa [lastOr_cons], by rw [replaced]; rfl⟩
  exact first none

/-- A line of code that becomes a comment when the first match is dropped. -/
theorem standsBeforeSlash_of_replaceFirst (isCode : isLineComment line = false)
    (comment : isLineComment (pattern.replaceFirst [] line) = true) :
    StandsBeforeSlash pattern none line := by
  rcases replaceFirst_cases pattern [] line with same | ⟨front, back, size, rfl, found, dropped⟩
  · rw [same, isCode] at comment
    exact absurd comment (by decide)
  · refine ⟨front, back, size, rfl, found, ?_⟩
    rw [dropped, List.nil_append] at comment
    clear dropped found
    -- What stands before the match is blank, or it is the first of the two slashes.
    induction front with
    | nil => exact head?_trimStart_of_isLineComment comment
    | cons c front inductionHypothesis =>
        rw [List.cons_append] at isCode comment
        cases blank : isBlank c with
        | true =>
            rw [isLineComment_cons blank] at isCode comment
            exact inductionHypothesis isCode comment
        | false =>
            obtain ⟨rfl, second⟩ := (isLineComment_cons_iff blank).mp comment
            cases front with
            | nil => exact head?_trimStart_of_head? second
            | cons d front =>
                have wasComment : isLineComment ('/' :: (d :: front ++ back)) = true :=
                  (isLineComment_cons_iff blank).mpr ⟨rfl, second⟩
                rw [wasComment] at isCode
                exact absurd isCode (by decide)

end Unpacking.Line
