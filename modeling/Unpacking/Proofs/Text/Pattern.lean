import Unpacking.Proofs.Text.Reading
import Unpacking.Text.Pattern

/-!
What a pattern matches, and induction over the matches that are replaced in a text.
-/

namespace Unpacking.Text

theorem lastOr_nil (before : Option Char) : lastOr before [] = before := rfl

theorem lastOr_cons (before : Option Char) (c : Char) (text : Text) :
    lastOr before (c :: text) = lastOr (some c) text := by
  cases text with
  | nil => rfl
  | cons d text =>
      simp only [lastOr, List.getLast?_cons_cons]
      cases last : (d :: text).getLast? with
      | none => simp at last
      | some e => rfl

/-- The last character of a text that is not empty, whatever stands before it. -/
theorem lastOr_of_ne_nil {text : Text} (filled : text ≠ []) (before other : Option Char) :
    lastOr before text = lastOr other text := by
  obtain ⟨c, text, rfl⟩ := List.exists_cons_of_ne_nil filled
  rw [lastOr_cons, lastOr_cons]

theorem lastOr_append_singleton (before : Option Char) (text : Text) (c : Char) :
    lastOr before (text ++ [c]) = some c := by
  simp [lastOr]

theorem isWordAt_of_isBoundary {before after : Option Char} (inWord : isWordAt before = true)
    (boundary : isBoundary before after = true) : isWordAt after = false := by
  rw [isBoundary, inWord, bne_iff_ne] at boundary
  simpa using boundary

theorem take_eq_of_append_drop {text front : Text} {size : Nat}
    (whole : text = front ++ text.drop size) : text.take size = front :=
  List.append_cancel_right ((List.take_append_drop size text).trans whole)

namespace Pattern

variable {pattern : Pattern} {before : Option Char} {text : Text} {size : Nat}

/-! ### Matches -/

/-- A match of a reader ends where the reader stops. -/
theorem ofReader_eq_some {reader : Text → Option Text}
    (shrinks : ∀ {text rest}, reader text = some rest → rest <:+ text)
    (found : ofReader reader before text = some size) : reader text = some (text.drop size) := by
  obtain ⟨rest, read, rfl⟩ := Option.map_eq_some_iff.mp found
  rw [read, ← List.suffix_iff_eq_drop.mp (shrinks read)]

theorem take_of_literal {word : Text} (found : literal word before text = some size) :
    text.take size = word := by
  have read := ofReader_eq_some
    (fun read => ⟨word, (after?_eq_some read).symm⟩) found
  exact take_eq_of_append_drop (after?_eq_some read)

theorem of_atBoundary (found : atBoundary pattern before text = some size) :
    isBoundary before text.head? = true ∧ pattern before text = some size := by
  rw [atBoundary] at found
  split at found
  · rename_i boundary
    exact ⟨boundary, found⟩
  · simp at found

theorem of_toBoundary (found : toBoundary pattern before text = some size) :
    pattern before text = some size ∧
      isBoundary (lastOr before (text.take size)) (text.drop size).head? = true := by
  rw [toBoundary] at found
  split at found
  · rename_i other matched
    split at found
    · rename_i boundary
      rw [Option.some.injEq] at found
      exact ⟨found ▸ matched, found ▸ boundary⟩
    · simp at found
  · simp at found

theorem take_of_wholeWord {word : Text} (found : wholeWord word before text = some size) :
    text.take size = word :=
  take_of_literal (of_atBoundary (of_toBoundary found).1).2

/-! ### Replacement -/

/-- Induction over the matches that are replaced in a text. What is kept belongs to no match of at
least one character. -/
theorem replaceFrom_induction {replacement : Text → Text}
    {relation : Option Char → Text → Text → Prop} (empty : ∀ before, relation before [] [])
    (kept : ∀ before c rest new, (∀ size, pattern before (c :: rest) ≠ some (size + 1)) →
      relation (some c) rest new → relation before (c :: rest) (c :: new))
    (matched : ∀ before text size new, pattern before text = some size →
      relation (lastOr before (text.take size)) (text.drop size) new →
        relation before text (replacement (text.take size) ++ new))
    (text : Text) (before : Option Char) :
    relation before text (replaceFrom pattern replacement 0 before text) := by
  -- The characters that are skipped belong to a match, so the statement speaks of what is behind.
  have behind (skip : Nat) : relation (lastOr before (text.take skip)) (text.drop skip)
      (replaceFrom pattern replacement skip before text) := by
    induction text generalizing before skip with
    | nil =>
        rw [List.take_nil, List.drop_nil, lastOr_nil, replaceFrom]
        split
        · rename_i size found
          simpa using matched before [] size [] found (by simpa using empty _)
        · exact empty before
    | cons c rest inductionHypothesis =>
        cases skip with
        | succ skip =>
            rw [List.take_succ_cons, lastOr_cons, List.drop_succ_cons, replaceFrom]
            exact inductionHypothesis (some c) skip
        | zero =>
            have next := inductionHypothesis (some c)
            rw [List.take_zero, List.drop_zero, replaceFrom]
            split
            · rename_i size found
              have later := next size
              rw [← lastOr_cons before c] at later
              exact matched before (c :: rest) (size + 1) _ found later
            · rename_i found
              have passed := kept before c rest _ (by simp [found]) (next 0)
              exact matched before (c :: rest) 0 _ found passed
            · rename_i found
              exact kept before c rest _ (by simp [found]) (next 0)
  exact behind 0

/-- Induction up to the first match that is replaced in a text. -/
theorem replaceFirst_induction {replacement : Text}
    {relation : Text → Text → Prop} (empty : relation [] [])
    (kept : ∀ c rest new, relation rest new → relation (c :: rest) (c :: new))
    (matched : ∀ before text size, pattern before text = some size →
      relation text (replacement ++ text.drop size))
    (text : Text) : relation text (pattern.replaceFirst replacement text) := by
  have first (before : Option Char) :
      relation text (replaceFirstFrom pattern replacement before text) := by
    induction text generalizing before with
    | nil =>
        rw [replaceFirstFrom]
        split
        · rename_i found
          obtain ⟨size, found⟩ := Option.isSome_iff_exists.mp found
          simpa using matched before [] size found
        · exact empty
    | cons c rest inductionHypothesis =>
        rw [replaceFirstFrom]
        split
        · rename_i size found
          exact matched before (c :: rest) size found
        · exact kept c rest _ (inductionHypothesis (some c))
  exact first none

/-! ### Replacement piece by piece -/

section Pieces

variable {replacement : Text → Text}

theorem lastOr_append (before : Option Char) (front back : Text) :
    lastOr before (front ++ back) = lastOr (lastOr before front) back := by
  induction front generalizing before with
  | nil => rfl
  | cons c front inductionHypothesis =>
      rw [List.cons_append, lastOr_cons, lastOr_cons, inductionHypothesis]

/-- A given text between word boundaries, where it matches. -/
theorem wholeWord_eq_some {word text : Text} {size : Nat}
    (found : wholeWord word before text = some size) :
    ∃ rest, text = word ++ rest ∧ size = word.length ∧ isBoundary before text.head? = true ∧
      isBoundary (lastOr before word) rest.head? = true := by
  obtain ⟨inner, ends⟩ := of_toBoundary found
  obtain ⟨starts, matched⟩ := of_atBoundary inner
  obtain ⟨rest, read, same⟩ := Option.map_eq_some_iff.mp matched
  have whole := after?_eq_some read
  have size : size = word.length := by
    rw [← same, whole, List.length_append, Nat.add_sub_cancel]
  refine ⟨rest, whole, size, starts, ?_⟩
  rwa [take_of_wholeWord found, size, whole, List.drop_left] at ends

theorem wholeWord_append {word rest : Text}
    (starts : isBoundary before (word ++ rest).head? = true)
    (ends : isBoundary (lastOr before word) rest.head? = true) :
    wholeWord word before (word ++ rest) = some word.length := by
  have read : literal word before (word ++ rest) = some word.length := by
    rw [literal, ofReader, after?_append, Option.map_some, List.length_append, Nat.add_sub_cancel]
  have inner : atBoundary (literal word) before (word ++ rest) = some word.length := by
    rw [atBoundary, if_pos starts, read]
  rw [wholeWord, toBoundary, inner]
  dsimp only
  rw [List.take_left, List.drop_left, if_pos ends]

theorem replaceFrom_skip (pattern : Pattern) (replacement : Text → Text) (before : Option Char)
    (piece rest : Text) :
    replaceFrom pattern replacement piece.length before (piece ++ rest) =
      replaceFrom pattern replacement 0 (lastOr before piece) rest := by
  induction piece generalizing before with
  | nil => rfl
  | cons c piece inductionHypothesis =>
      rw [List.length_cons, List.cons_append, replaceFrom, inductionHypothesis, lastOr_cons]

theorem replaceFrom_matched {piece rest : Text} (filled : piece ≠ [])
    (found : pattern before (piece ++ rest) = some piece.length) :
    replaceFrom pattern replacement 0 before (piece ++ rest) =
      replacement piece ++ replaceFrom pattern replacement 0 (lastOr before piece) rest := by
  obtain ⟨c, piece, rfl⟩ := List.exists_cons_of_ne_nil filled
  rw [List.cons_append, List.length_cons] at found
  rw [List.cons_append, replaceFrom, found]
  dsimp only
  rw [List.take_left, replaceFrom_skip, lastOr_cons]

theorem replaceFrom_none {c : Char} {rest : Text} (found : pattern before (c :: rest) = none) :
    replaceFrom pattern replacement 0 before (c :: rest) =
      c :: replaceFrom pattern replacement 0 (some c) rest := by
  rw [replaceFrom, found]

/-- A piece in which no match begins is kept. -/
theorem replaceFrom_keep {piece rest : Text}
    (free : ∀ left right, piece = left ++ right → right ≠ [] →
      pattern (lastOr before left) (right ++ rest) = none) :
    replaceFrom pattern replacement 0 before (piece ++ rest) =
      piece ++ replaceFrom pattern replacement 0 (lastOr before piece) rest := by
  induction piece generalizing before with
  | nil => rfl
  | cons c piece inductionHypothesis =>
      have here : pattern before (c :: (piece ++ rest)) = none :=
        free [] (c :: piece) rfl (List.cons_ne_nil c piece)
      rw [List.cons_append, replaceFrom_none here, lastOr_cons, List.cons_append]
      refine congrArg (c :: ·) (inductionHypothesis fun left right whole filled => ?_)
      rw [← lastOr_cons before]
      exact free (c :: left) right (by rw [whole, List.cons_append]) filled

/-- A text without any match is kept. -/
theorem replaceFrom_of_none {text : Text}
    (free : ∀ left right, text = left ++ right → pattern (lastOr before left) right = none) :
    replaceFrom pattern replacement 0 before text = text := by
  have kept := @replaceFrom_keep pattern before replacement text [] fun left right whole _ =>
    (List.append_nil right).symm ▸ free left right whole
  have nothing : replaceFrom pattern replacement 0 (lastOr before text) [] = [] := by
    rw [replaceFrom, free text [] (List.append_nil text).symm]
  rwa [List.append_nil, nothing, List.append_nil] at kept

/-- A text without its matches is a part of the text. -/
theorem replaceAll_sublist (pattern : Pattern) (text : Text) :
    (pattern.replaceAll (fun _ => []) text).Sublist text :=
  @replaceFrom_induction pattern (fun _ => []) (fun _ old new => new.Sublist old) (fun _ => .slnil)
    (fun _ c _ _ _ inside => inside.cons_cons c)
    (fun _ text size _ _ inside => inside.trans (List.drop_sublist size text)) text none

theorem mem_of_mem_replaceAll {text new : Text} {c : Char}
    (member : c ∈ pattern.replaceAll (fun _ => new) text) : c ∈ text ∨ c ∈ new := by
  refine @replaceFrom_induction pattern (fun _ => new)
    (fun _ old changed => c ∈ changed → c ∈ old ∨ c ∈ new) ?_ ?_ ?_ text none member
  · intro _ nowhere
    exact absurd nowhere List.not_mem_nil
  · intro _ d rest changed _ inRest inside
    rcases List.mem_cons.mp inside with rfl | later
    · exact .inl List.mem_cons_self
    · exact (inRest later).imp_left (List.mem_cons_of_mem d)
  · intro _ old size changed _ inRest inside
    rcases List.mem_append.mp inside with here | later
    · exact .inr here
    · exact (inRest later).imp_left List.mem_of_mem_drop

end Pieces

end Pattern

end Unpacking.Text
