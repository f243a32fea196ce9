import Unpacking.Proofs.Reflection.Blocks

/-!
The brace profile of a text under the second pass of a sweep: the depth behind each line, and the
lowest depth that is reached on the way. The placeholders of a line close as many blocks as the
line leaves unopened and open as many as it leaves unclosed, so they fall as deep as the line and
end where it ends. Main statement: `sameProfile_linePass`.
-/

namespace Unpacking.Line

open Text

/-! ### Scans -/

variable {depth lowest : Int}

theorem braceScan_append (depth lowest : Int) (line rest : Line) :
    braceScan depth lowest (line ++ rest) =
      braceScan (braceScan depth lowest line).1 (braceScan depth lowest line).2 rest := by
  induction line generalizing depth lowest with
  | nil => rfl
  | cons c line inductionHypothesis => exact inductionHypothesis _ _

/-- A scan from any depth is the scan from depth zero, moved to that depth. -/
theorem braceScan_eq (below : lowest ≤ depth) (line : Line) :
    braceScan depth lowest line =
      (depth + (braceScan 0 0 line).1, min lowest (depth + (braceScan 0 0 line).2)) := by
  induction line generalizing depth lowest with
  | nil => rw [braceScan, braceScan, Int.add_zero, Int.min_eq_left below]
  | cons c line inductionHypothesis =>
      have start : min 0 (0 + braceStep c) ≤ 0 + braceStep c := Int.min_le_right _ _
      rw [braceScan, braceScan, inductionHypothesis (Int.min_le_right _ _),
        inductionHypothesis start, Prod.mk.injEq]
      omega

theorem braceScan_bounds (line : Line) :
    (braceScan 0 0 line).2 ≤ 0 ∧ (braceScan 0 0 line).2 ≤ (braceScan 0 0 line).1 := by
  induction line with
  | nil => exact ⟨Int.le_refl 0, Int.le_refl 0⟩
  | cons c line inductionHypothesis =>
      rw [braceScan, braceScan_eq (Int.min_le_right _ _)]
      dsimp only
      omega

theorem braceScan_below (below : lowest ≤ depth) (line : Line) :
    (braceScan depth lowest line).2 ≤ (braceScan depth lowest line).1 := by
  have bounds := braceScan_bounds line
  rw [braceScan_eq below]
  dsimp only
  omega

/-- Texts that are replaced one by one, each by a text with the same profile, keep the profile. -/
theorem braceScan_flatten_congr {texts others : List Text} (below : lowest ≤ depth)
    (same : texts.map (braceScan 0 0) = others.map (braceScan 0 0)) :
    braceScan depth lowest texts.flatten = braceScan depth lowest others.flatten := by
  induction texts generalizing others depth lowest with
  | nil =>
      rw [List.map_nil, eq_comm, List.map_eq_nil_iff] at same
      rw [same]
  | cons text texts inductionHypothesis =>
      rw [List.map_cons, eq_comm, List.map_eq_cons_iff] at same
      obtain ⟨other, others, rfl, first, rest⟩ := same
      have here : braceScan depth lowest text = braceScan depth lowest other := by
        rw [braceScan_eq below, braceScan_eq below, first]
      rw [List.flatten_cons, List.flatten_cons, braceScan_append, braceScan_append, here]
      exact inductionHypothesis (braceScan_below below other) rest.symm

/-- Equal lines with one brace at most move the depth in one direction. -/
theorem braceScan_replicate {line : Line} (single : braceCount line ≤ 1) (below : lowest ≤ depth)
    (count : Nat) :
    braceScan depth lowest (List.replicate count line).flatten =
      (depth + count * braceBalance line, min lowest (depth + count * braceBalance line)) := by
  induction count generalizing depth lowest with
  | zero => simp [braceScan, Int.min_eq_left below]
  | succ count inductionHypothesis =>
      have bounds := braceBalance_bounds single
      have brace : braceBalance line = -1 ∨ braceBalance line = 0 ∨ braceBalance line = 1 := by
        omega
      rw [List.replicate_succ, List.flatten_cons, braceScan_append,
        braceScan_of_braceCount single below, inductionHypothesis (Int.min_le_right _ _),
        Prod.mk.injEq]
      -- The products with the balance are linear once the balance is a number.
      rcases brace with closes | bare | opens
      · rw [closes]
        omega
      · rw [bare]
        omega
      · rw [opens]
        omega

/-! ### Profiles -/

/-- The brace depth behind a text that starts at a depth. -/
def depthBehind (depth : Int) (text : Text) : Int :=
  depth + text.count '{' - text.count '}'

/-- The lowest of the depths before a text, on the way through it and behind it. -/
structure IsLowest (depth : Int) (text : Text) (lowest : Int) : Prop where
  reached : ∃ front, front <+: text ∧ depthBehind depth front = lowest
  least : ∀ front, front <+: text → lowest ≤ depthBehind depth front

/-- Two texts have the same final and the same lowest depth, wherever they start. -/
structure SameProfile (left right : Text) : Prop where
  final : ∀ depth, depthBehind depth left = depthBehind depth right
  lowest : ∀ depth, ∃ lowest, IsLowest depth left lowest ∧ IsLowest depth right lowest

theorem depthBehind_nil (depth : Int) : depthBehind depth [] = depth := by
  simp [depthBehind]

theorem depthBehind_cons (depth : Int) (c : Char) (text : Text) :
    depthBehind depth (c :: text) = depthBehind (depth + braceStep c) text := by
  unfold depthBehind braceStep
  split
  · rename_i opening
    subst opening
    rw [List.count_cons_self, List.count_cons_of_ne (by decide)]
    omega
  · rename_i notOpening
    split
    · rename_i closing
      subst closing
      rw [List.count_cons_self, List.count_cons_of_ne (by decide)]
      omega
    · rename_i notClosing
      rw [List.count_cons_of_ne notOpening, List.count_cons_of_ne notClosing]
      omega

theorem IsLowest.cons {c : Char} {text : Text}
    (isLowest : IsLowest (depth + braceStep c) text lowest) :
    IsLowest depth (c :: text) (min depth lowest) := by
  obtain ⟨⟨front, part, reached⟩, least⟩ := isLowest
  constructor
  · rcases Int.le_total depth lowest with first | later
    · exact ⟨[], List.nil_prefix, by rw [depthBehind_nil, Int.min_eq_left first]⟩
    · refine ⟨c :: front, List.cons_prefix_cons.mpr ⟨rfl, part⟩, ?_⟩
      rw [depthBehind_cons, reached, Int.min_eq_right later]
  · intro front part
    rcases List.prefix_cons_iff.mp part with rfl | ⟨front, rfl, inside⟩
    · rw [depthBehind_nil]
      exact Int.min_le_left _ _
    · rw [depthBehind_cons]
      exact Int.le_trans (Int.min_le_right _ _) (least front inside)

/-- A scan finds the final and the lowest depth. -/
theorem braceScan_isLowest (depth : Int) (text : Text) :
    (braceScan depth depth text).1 = depthBehind depth text ∧
      IsLowest depth text (braceScan depth depth text).2 := by
  induction text generalizing depth with
  | nil =>
      refine ⟨(depthBehind_nil depth).symm, ⟨[], List.nil_prefix, depthBehind_nil depth⟩, ?_⟩
      intro front part
      rw [List.prefix_nil.mp part, depthBehind_nil]
      exact Int.le_refl depth
  | cons c text inductionHypothesis =>
      obtain ⟨final, isLowest⟩ := inductionHypothesis (depth + braceStep c)
      have moved : braceScan depth depth (c :: text) =
          ((braceScan (depth + braceStep c) (depth + braceStep c) text).1,
            min depth (braceScan (depth + braceStep c) (depth + braceStep c) text).2) := by
        rw [braceScan, braceScan_eq (Int.min_le_right _ _),
          braceScan_eq (Int.le_refl (depth + braceStep c)), Prod.mk.injEq]
        omega
      rw [moved, depthBehind_cons]
      exact ⟨final, isLowest.cons⟩

theorem sameProfile_of_braceScan {left right : Text}
    (same : braceScan 0 0 left = braceScan 0 0 right) : SameProfile left right := by
  have moved (depth : Int) : braceScan depth depth left = braceScan depth depth right := by
    rw [braceScan_eq (Int.le_refl depth), braceScan_eq (Int.le_refl depth), same]
  constructor
  · intro depth
    rw [← (braceScan_isLowest depth left).1, moved, (braceScan_isLowest depth right).1]
  · intro depth
    exact ⟨_, moved depth ▸ (braceScan_isLowest depth left).2, (braceScan_isLowest depth right).2⟩

/-! ### Live lines -/

/-- The text of a line, and none for a line behind two slashes. -/
def liveText (line : Line) : Text :=
  if isLineComment line then [] else line

theorem liveText_of_isCode {line : Line} (isCode : isLineComment line = false) :
    liveText line = line := by
  simp [liveText, isCode]

theorem liveText_of_isLineComment {line : Line} (comment : isLineComment line = true) :
    liveText line = [] := by
  simp [liveText, comment]

theorem braceScan_liveText_append_return (line : Line) :
    braceScan 0 0 (liveText (line ++ ['\r'])) = braceScan 0 0 (liveText line) := by
  unfold liveText
  rw [isLineComment_append_return]
  split
  · rfl
  · have bounds := braceScan_bounds line
    have blank : braceStep '\r' = 0 := by decide
    rw [braceScan_append, braceScan, braceScan, blank, Int.add_zero, Int.min_eq_left bounds.2]

theorem braceScan_flatMap_congr {lines others : List Line}
    (same : lines.map (fun line => braceScan 0 0 (liveText line)) =
      others.map fun line => braceScan 0 0 (liveText line)) :
    braceScan 0 0 (lines.flatMap liveText) = braceScan 0 0 (others.flatMap liveText) := by
  rw [List.flatMap_def, List.flatMap_def]
  refine braceScan_flatten_congr (Int.le_refl 0) ?_
  rw [List.map_map, List.map_map]
  exact same

end Unpacking.Line

namespace Unpacking.Reflection

open Text Line

/-- The output lines that stand for a line: the line itself, or a comment with its text and
placeholders. -/
inductive StandsFor (line : Line) : List Line → Prop
  | kept : StandsFor line [line]
  | commented (closes opens : Nat) :
      StandsFor line (["// " ++ line ++ " " ++ lineMarker] ++
        List.replicate closes (indentation line ++ "\x7d") ++
        List.replicate opens (indentation line ++ "if (true) \x7b"))

/-- The text of placeholders is the text of one of them, repeated. -/
theorem flatMap_liveText_replicate {placeholder : Line} (added : isPlaceholder placeholder = true)
    (count : Nat) :
    (List.replicate count placeholder).flatMap liveText =
      (List.replicate count placeholder).flatten := by
  rw [List.flatMap_replicate, liveText_of_isCode (isLineComment_of_isPlaceholder added)]

/-- The placeholders of a line reach its final and its lowest depth. -/
theorem braceScan_commentedLine (line : Line) :
    braceScan 0 0 ((commentedLine line).flatMap liveText) = braceScan 0 0 line := by
  have comment : liveText ("// " ++ line ++ " " ++ lineMarker) = [] :=
    liveText_of_isLineComment (isLineComment_slashes _)
  have closing : braceCount (indentation line ++ ("\x7d" : Text)) ≤ 1 := by
    rw [braceCount_append, braceCount_indentation]
    decide
  have opening : braceCount (indentation line ++ ("if (true) \x7b" : Text)) ≤ 1 := by
    rw [braceCount_append, braceCount_indentation]
    decide
  have falls : braceBalance (indentation line ++ ("\x7d" : Text)) = -1 := by
    rw [← liveBalance_of_isPlaceholder (isPlaceholder_close line), liveBalance_close]
  have rises : braceBalance (indentation line ++ ("if (true) \x7b" : Text)) = 1 := by
    rw [← liveBalance_of_isPlaceholder (isPlaceholder_open line), liveBalance_open]
  have bounds := braceScan_bounds line
  have start : min 0 (0 + ((unmatchedBraces line).1 : Int) * -1) ≤
      0 + ((unmatchedBraces line).1 : Int) * -1 := Int.min_le_right _ _
  have counts : unmatchedBraces line = ((-(braceScan 0 0 line).2).toNat,
      ((braceScan 0 0 line).1 - (braceScan 0 0 line).2).toNat) := rfl
  unfold commentedLine
  simp only [List.flatMap_append, List.flatMap_singleton, comment, List.nil_append,
    flatMap_liveText_replicate (isPlaceholder_close line),
    flatMap_liveText_replicate (isPlaceholder_open line), braceScan_append,
    braceScan_replicate closing (Int.le_refl 0), falls, braceScan_replicate opening start, rises]
  rw [counts, Prod.ext_iff]
  dsimp only
  omega

/-- The lines that the second pass writes for a line. -/
def writtenFor (term : Text) (line : Line) : List Line :=
  (lineSpan term line).after

theorem standsFor_writtenFor (term : Text) (line : Line) :
    StandsFor line (writtenFor term line) := by
  unfold writtenFor lineSpan
  split
  · exact .kept
  · exact .commented _ _

/-- The second pass keeps the profile of each line. -/
theorem braceScan_writtenFor (term : Text) (line : Line) :
    braceScan 0 0 ((writtenFor term line).flatMap liveText) = braceScan 0 0 (liveText line) := by
  unfold writtenFor lineSpan
  split
  · rw [Span.after, List.flatMap_singleton]
  · rename_i hit
    have isCode := isCommentOrImport_of_staysLive (Bool.eq_false_iff.mpr hit)
    rw [Span.after, braceScan_commentedLine,
      liveText_of_isCode (isLineComment_of_isCommentOrImport isCode)]

/-- What the second pass writes for some lines has the profile of those lines. -/
theorem braceScan_flatten_writtenFor (term : Text) (lines : List Line) :
    braceScan 0 0 ((lines.map (writtenFor term)).flatten.flatMap liveText) =
      braceScan 0 0 (lines.flatMap liveText) := by
  rw [← List.flatMap_def, List.flatMap_assoc, List.flatMap_def, List.flatMap_def]
  refine braceScan_flatten_congr (Int.le_refl 0) ?_
  rw [List.map_map, List.map_map]
  exact List.map_congr_left fun line _ => braceScan_writtenFor term line

/-- Reading lines back changes the profile at the end of no line. -/
theorem braceScan_take_readBack (closed : Bool) (lines : List Line) (count : Nat) :
    braceScan 0 0 (((readBack closed lines).take count).flatMap liveText) =
      braceScan 0 0 ((lines.take count).flatMap liveText) := by
  refine braceScan_flatMap_congr ?_
  rw [List.map_take, map_readBack braceScan_liveText_append_return, List.map_take]

/-- The second pass writes a group of lines for each line. The live lines of a group have the final
and the lowest brace depth of the line that they stand for, from any depth on, and so have the live
lines of the result up to the end of any group. -/
theorem sameProfile_linePass {term text result : Text} {found : List Finding}
    (passed : linePass term text = .ok (result, found)) :
    ∃ groups : List (List Line),
      result = unlines groups.flatten (endsWithNewline text) ∧
      List.Forall₂ (fun line group => StandsFor line group ∧
        (isLineComment line = false → SameProfile (group.flatMap liveText) line))
        (lines text) groups ∧
      ∀ count, SameProfile
        (((lines result).take (groups.take count).flatten.length).flatMap liveText)
        (((lines text).take count).flatMap liveText) := by
  have grouped : (lineSpans term text).flatMap Span.after =
      ((lines text).map (writtenFor term)).flatten := by
    rw [lineSpans, List.flatMap_map, List.flatMap_def]
    rfl
  refine ⟨(lines text).map (writtenFor term), ?_, ?_, ?_⟩
  · rw [← grouped]
    exact (linePass_eq_ok passed).2.1
  · rw [List.forall₂_map_right_iff, List.forall₂_same]
    intro line _
    refine ⟨standsFor_writtenFor term line, fun isCode => sameProfile_of_braceScan ?_⟩
    rw [braceScan_writtenFor, liveText_of_isCode isCode]
  · intro count
    -- The groups of the first lines are the first of the written lines.
    have split : ((lines text).map (writtenFor term)).flatten =
        (((lines text).map (writtenFor term)).take count).flatten ++
          (((lines text).map (writtenFor term)).drop count).flatten := by
      rw [← List.flatten_append, List.take_append_drop]
    apply sameProfile_of_braceScan
    rw [(pass_linePass passed).1.written, grouped, braceScan_take_readBack, split, List.take_left,
      ← List.map_take, braceScan_flatten_writtenFor]

/-- Lines that close a block before they open one. -/
def elseBranches : Text :=
  "if (invoke()) \x7b\n\x7d else if (invoke()) \x7b\n\x7d);\r\n// invoke() \x7b\n"

theorem sameProfile_linePass_elseBranches :
    ∃ result found, linePass "invoke" elseBranches = .ok (result, found) ∧
      (lines result).length = 7 ∧
      ∃ groups : List (List Line),
        result = unlines groups.flatten (endsWithNewline elseBranches) ∧
        List.Forall₂ (fun line group => StandsFor line group ∧
          (isLineComment line = false → SameProfile (group.flatMap liveText) line))
          (lines elseBranches) groups ∧
        ∀ count, SameProfile
          (((lines result).take (groups.take count).flatten.length).flatMap liveText)
          (((lines elseBranches).take count).flatMap liveText) := by
  have run : (linePass "invoke" elseBranches).map (fun passed => (lines passed.1).length) =
      .ok 7 := by decide +kernel
  cases passed : linePass "invoke" elseBranches with
  | error error =>
      rw [passed] at run
      exact nomatch run
  | ok written =>
      rw [passed, Except.map, Except.ok.injEq] at run
      exact ⟨written.1, written.2, rfl, run, sameProfile_linePass passed⟩

end Unpacking.Reflection
