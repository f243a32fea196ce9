import Unpacking.Proofs.Line.Depth
import Unpacking.Proofs.Text.Items
import Unpacking.Proofs.Text.Lines
import Unpacking.Proofs.Text.Pattern

/-!
The brace depth at the end of a text, and texts that are put together from pieces in the place of
lines. The depth falls by the braces of those lines of code that end up on comment lines.
-/

namespace Unpacking.Line

open Text

/-! ### The depth at the end of a text -/

/-- The braces that the lines in force open in excess. -/
def liveDepth (text : Text) : Int :=
  (liveSteps text).sum

/-- The braces that the comment lines of a text open in excess. -/
def commentDepth (text : Text) : Int :=
  surplus (lines text)

theorem liveBalance_dropReturn (line : Line) : liveBalance (dropReturn line) = liveBalance line := by
  rcases dropReturn_cases line with same | longer
  · rw [same]
  · conv_rhs => rw [longer, liveBalance_append_return]

theorem braceBalance_dropReturn (line : Line) :
    braceBalance (dropReturn line) = braceBalance line := by
  rcases dropReturn_cases line with same | longer
  · rw [same]
  · conv_rhs => rw [longer, braceBalance_append_return]

theorem liveDepth_of_unbroken {line : Line} (unbroken : '\n' ∉ line) :
    liveDepth line = liveBalance line := by
  by_cases empty : line = []
  · rw [empty]
    rfl
  · simp [liveDepth, liveSteps, lines_of_unbroken unbroken empty]

/-- A line feed cuts a text into two texts with depths of their own. -/
theorem liveDepth_append_newline (text rest : Text) :
    liveDepth (text ++ '\n' :: rest) = liveDepth text + liveDepth rest := by
  induction text using linewise with
  | empty => simp [liveDepth, liveSteps, lines, liveBalance]
  | single line unbroken filled =>
      rw [liveDepth_of_unbroken unbroken, liveDepth, liveSteps, lines_append_newline unbroken,
        List.map_cons, List.sum_cons, liveBalance_dropReturn]
      rfl
  | closed line more unbroken inductionHypothesis =>
      have cut (tail : Text) :
          liveDepth (line ++ '\n' :: tail) = liveBalance line + liveDepth tail := by
        rw [liveDepth, liveSteps, lines_append_newline unbroken, List.map_cons, List.sum_cons,
          liveBalance_dropReturn]
        rfl
      rw [List.append_assoc, List.cons_append, cut, cut, inductionHypothesis, Int.add_assoc]

theorem liveDepth_unlines (pieces : List Text) (closed : Bool) :
    liveDepth (unlines pieces closed) = (pieces.map liveDepth).sum := by
  induction pieces with
  | nil => cases closed <;> rfl
  | cons piece rest inductionHypothesis =>
      cases rest with
      | nil =>
          rw [unlines_singleton]
          cases closed with
          | false => simp
          | true => simpa [liveDepth, liveSteps, lines] using liveDepth_append_newline piece []
      | cons next rest =>
          rw [unlines_cons_cons, liveDepth_append_newline, inductionHypothesis]
          rfl

theorem commentDepth_of_unbroken {line : Line} (unbroken : '\n' ∉ line) :
    commentDepth line = commentBalance line := by
  by_cases empty : line = []
  · rw [empty]
    rfl
  · simp [commentDepth, surplus, lines_of_unbroken unbroken empty]

theorem sum_braceBalance_lines (text : Text) :
    ((lines text).map braceBalance).sum = braceBalance text := by
  induction text using linewise with
  | empty => rfl
  | single line unbroken filled => simp [lines_of_unbroken unbroken filled]
  | closed line rest unbroken inductionHypothesis =>
      rw [lines_append_newline unbroken, List.map_cons, List.sum_cons, inductionHypothesis,
        braceBalance_dropReturn, braceBalance_append, braceBalance_cons]
      simp [braceStep]

/-- Every brace of a text is in force or on a comment line. -/
theorem liveDepth_add_commentDepth (text : Text) :
    liveDepth text + commentDepth text = braceBalance text := by
  rw [liveDepth, liveSteps, commentDepth, sum_liveBalance_add_surplus, sum_braceBalance_lines]

/-! ### Pieces in the place of lines -/

/-- The braces of the lines of code that end up on comment lines. -/
def silenced (pieces : List (Line × Text)) : Int :=
  (pieces.map fun piece => if isLineComment piece.1 then 0 else commentDepth piece.2).sum

/-- A text that can stand in the place of a line: it has the braces of the line, and in the place of
a comment it is one. -/
structure IsPiece (line : Line) (piece : Text) : Prop where
  balance : braceBalance piece = braceBalance line
  comment : isLineComment line = true → liveDepth piece = 0

/-- A text that is put together from pieces, each in the place of a line. The lines without a piece
have no braces. -/
structure Replaces (text : Text) (pieces : List (Line × Text)) (result : Text) : Prop where
  written : result = unlines (pieces.map Prod.snd) (endsWithNewline text)
  covers : (pieces.map fun piece => liveBalance piece.1).sum = liveDepth text
  each : ∀ piece ∈ pieces, IsPiece piece.1 piece.2

theorem IsPiece.refl {line : Line} (unbroken : '\n' ∉ line) : IsPiece line line where
  balance := rfl
  comment := fun comment => by
    rw [liveDepth_of_unbroken unbroken, liveBalance_of_isLineComment comment]

theorem IsPiece.of_isLineComment {line : Line} {piece : Text}
    (balance : braceBalance piece = braceBalance line) (unbroken : '\n' ∉ piece)
    (comment : isLineComment piece = true) : IsPiece line piece where
  balance := balance
  comment := fun _ => by
    rw [liveDepth_of_unbroken unbroken, liveBalance_of_isLineComment comment]

theorem sum_liveDepth_add_silenced {pieces : List (Line × Text)}
    (each : ∀ piece ∈ pieces, IsPiece piece.1 piece.2) :
    ((pieces.map Prod.snd).map liveDepth).sum + silenced pieces =
      (pieces.map fun piece => liveBalance piece.1).sum := by
  unfold silenced
  induction pieces with
  | nil => rfl
  | cons piece rest inductionHypothesis =>
      have others := inductionHypothesis fun other member => each other (by simp [member])
      have here : liveDepth piece.2 +
          (if isLineComment piece.1 then 0 else commentDepth piece.2) = liveBalance piece.1 := by
        obtain ⟨same, comment⟩ := each piece (by simp)
        have total := liveDepth_add_commentDepth piece.2
        cases isComment : isLineComment piece.1 with
        | true =>
            rw [comment isComment, liveBalance_of_isLineComment isComment]
            rfl
        | false =>
            rw [liveBalance_of_isCode isComment]
            simp only [Bool.false_eq_true, if_false]
            omega
      simp only [List.map_cons, List.sum_cons]
      omega

/-- The depth falls by the braces that end up on comment lines. -/
theorem Replaces.liveDepth_eq {text result : Text} {pieces : List (Line × Text)}
    (replaces : Replaces text pieces result) :
    liveDepth result = liveDepth text - silenced pieces := by
  have total := sum_liveDepth_add_silenced replaces.each
  rw [replaces.written, liveDepth_unlines]
  have covers := replaces.covers
  omega

end Unpacking.Line

namespace Unpacking.Text

open Line

/-! ### Readers that pass no brace -/

variable {text rest word : Text}

theorem braceBalance_of_class {inClass : Char → Bool} (members : ∀ c ∈ text, inClass c = true)
    (opening : inClass '{' = false) (closing : inClass '}' = false) : braceBalance text = 0 := by
  apply braceBalance_of_braceCount
  rw [braceCount, List.countP_eq_zero]
  intro c member brace
  have inside := members c member
  rcases (by simpa using brace : c = '{' ∨ c = '}') with rfl | rfl
  · rw [opening] at inside
    exact absurd inside (by decide)
  · rw [closing] at inside
    exact absurd inside (by decide)

theorem braceBalance_of_bare (noOpening : '{' ∉ text) (noClosing : '}' ∉ text) :
    braceBalance text = 0 := by
  have members (c : Char) (member : c ∈ text) : (c != '{' && c != '}') = true := by
    simp only [Bool.and_eq_true, bne_iff_ne]
    exact ⟨ne_of_mem_of_not_mem member noOpening, ne_of_mem_of_not_mem member noClosing⟩
  exact braceBalance_of_class members (by decide) (by decide)

theorem braceBalance_dropWhile {inClass : Char → Bool} (opening : inClass '{' = false)
    (closing : inClass '}' = false) (text : Text) :
    braceBalance (text.dropWhile inClass) = braceBalance text := by
  have taken : braceBalance (text.takeWhile inClass) = 0 :=
    braceBalance_of_class (fun c member => List.mem_takeWhile_imp member) opening closing
  conv_rhs => rw [← List.takeWhile_append_dropWhile (p := inClass) (l := text)]
  rw [braceBalance_append, taken, Int.zero_add]

theorem braceBalance_trimStart (text : Text) : braceBalance (trimStart text) = braceBalance text :=
  braceBalance_dropWhile (by decide) (by decide) text

theorem braceBalance_after? (read : after? word text = some rest) (bare : braceBalance word = 0) :
    braceBalance rest = braceBalance text := by
  rw [after?_eq_some read, braceBalance_append, bare, Int.zero_add]

theorem braceBalance_getD_after? (bare : braceBalance word = 0) (text : Text) :
    braceBalance ((after? word text).getD text) = braceBalance text := by
  cases read : after? word text with
  | none => rfl
  | some rest => exact braceBalance_after? read bare

theorem braceBalance_afterBlanks? (read : afterBlanks? text = some rest) :
    braceBalance rest = braceBalance text := by
  obtain ⟨blanks, rfl, -, blank, -⟩ := afterBlanks?_eq_some_iff.mp read
  rw [braceBalance_append, braceBalance_of_class blank (by decide) (by decide), Int.zero_add]

theorem braceBalance_run? {inClass : Char → Bool} (read : run? inClass text = some (word, rest))
    (opening : inClass '{' = false) (closing : inClass '}' = false) :
    braceBalance rest = braceBalance text := by
  obtain ⟨rfl, -, members⟩ := run?_eq_some read
  rw [braceBalance_append, braceBalance_of_class members opening closing, Int.zero_add]

theorem braceBalance_oneOf? {words : List Text} (bare : ∀ word ∈ words, braceBalance word = 0)
    (read : oneOf? words text = some (word, rest)) : braceBalance rest = braceBalance text := by
  obtain ⟨listed, member, read⟩ := List.exists_of_findSome?_eq_some read
  simp only [Option.bind_eq_bind, Option.bind_eq_some_iff, Option.pure_def, Option.some.injEq,
    Prod.mk.injEq] at read
  obtain ⟨behind, taken, rest, blanks, -, rfl⟩ := read
  rw [braceBalance_afterBlanks? blanks, braceBalance_after? taken (bare listed member)]

theorem braceBalance_afterItems {α : Type} {item : Text → Option (α × Text)}
    (shrinks : Shrinks item)
    (passes : ∀ {text rest first}, item text = some (first, rest) →
      braceBalance rest = braceBalance text) (text : Text) :
    braceBalance (afterItems item text) = braceBalance text := by
  obtain ⟨items, reads, -⟩ := (afterItems_eq_iff shrinks).mp (rfl : _ = afterItems item text)
  generalize afterItems item text = rest at reads
  induction reads with
  | done => rfl
  | more read _ inductionHypothesis => rw [inductionHypothesis, passes read]

namespace Pattern

variable {pattern : Pattern}

theorem braceBalance_replaceFirst
    (bare : ∀ {before text size}, pattern before text = some size →
      braceBalance (text.drop size) = braceBalance text) (line : Line) :
    braceBalance (pattern.replaceFirst [] line) = braceBalance line := by
  refine @replaceFirst_induction pattern [] (fun text new => braceBalance new = braceBalance text)
    rfl (fun c rest new same => ?_) (fun before text size found => bare found) line
  rw [braceBalance_cons, braceBalance_cons, same]

theorem replaceFirst_sublist (pattern : Pattern) (line : Line) :
    (pattern.replaceFirst [] line).Sublist line :=
  @replaceFirst_induction pattern [] (fun text new => new.Sublist text) .slnil
    (fun c _ _ inside => inside.cons_cons c) (fun _ text size _ => List.drop_sublist size text) line

theorem braceBalance_replaceAll {replacement : Text → Text}
    (bare : ∀ {before text size}, pattern before text = some size →
      braceBalance (replacement (text.take size)) = braceBalance (text.take size)) (line : Line) :
    braceBalance (pattern.replaceAll replacement line) = braceBalance line := by
  refine @replaceFrom_induction pattern replacement
    (fun _ text new => braceBalance new = braceBalance text)
    (fun _ => rfl) (fun _ c rest new _ same => ?_) (fun _ text size new found same => ?_) line none
  · rw [braceBalance_cons, braceBalance_cons, same]
  · conv_rhs => rw [← List.take_append_drop size text]
    rw [braceBalance_append, braceBalance_append, bare found, same]

end Pattern

end Unpacking.Text
