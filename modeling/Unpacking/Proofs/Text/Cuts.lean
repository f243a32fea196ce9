import Unpacking.Proofs.Text.Pattern

/-!
Replacement of what a reader finds. A reader looks at the text from a place on and at nothing before
it. What it finds cuts a text into the parts that are kept and the pieces that are replaced, and a
text that it never enters is replaced by itself.
-/

namespace Unpacking.Text

/-- A reader that takes a character at least. -/
def Consumes (reader : Text → Option Text) : Prop :=
  ∀ {text rest}, reader text = some rest → rest <:+ text ∧ rest.length < text.length

/-- A text is cut by a reader into a front, and the pieces that are found with the text behind each
of them. -/
inductive Cuts (reader : Text → Option Text) : Text → Text → List (Text × Text) → Prop where
  | done (unread : reader [] = none) : Cuts reader [] [] []
  | kept {c : Char} {rest front : Text} {pieces : List (Text × Text)}
      (unread : reader (c :: rest) = none) (behind : Cuts reader rest front pieces) :
      Cuts reader (c :: rest) (c :: front) pieces
  | found {piece rest front : Text} {pieces : List (Text × Text)} (filled : piece ≠ [])
      (read : reader (piece ++ rest) = some rest) (behind : Cuts reader rest front pieces) :
      Cuts reader (piece ++ rest) [] ((piece, front) :: pieces)

variable {reader : Text → Option Text} {text front : Text} {pieces : List (Text × Text)}

theorem Consumes.nil (consumes : Consumes reader) : reader [] = none := by
  cases read : reader [] with
  | none => rfl
  | some rest => exact absurd (consumes read).2 (Nat.not_lt_zero _)

/-- Every text is cut. -/
theorem exists_cuts (consumes : Consumes reader) (text : Text) :
    ∃ front pieces, Cuts reader text front pieces := by
  induction equal : text.length using Nat.strongRecOn generalizing text with
  | ind size inductionHypothesis =>
      cases text with
      | nil => exact ⟨[], [], .done consumes.nil⟩
      | cons c tail =>
          cases read : reader (c :: tail) with
          | none =>
              have shorter : tail.length < size := by simp [← equal]
              obtain ⟨front, pieces, cuts⟩ := inductionHypothesis _ shorter tail rfl
              exact ⟨c :: front, pieces, .kept read cuts⟩
          | some rest =>
              obtain ⟨⟨piece, whole⟩, shorter⟩ := consumes read
              obtain ⟨front, pieces, cuts⟩ :=
                inductionHypothesis rest.length (equal ▸ shorter) rest rfl
              rw [← whole] at read shorter ⊢
              have filled : piece ≠ [] := by
                rintro rfl
                exact absurd shorter (Nat.lt_irrefl _)
              exact ⟨[], (piece, front) :: pieces, .found filled read cuts⟩

theorem Cuts.eq_append (cuts : Cuts reader text front pieces) :
    text = front ++ pieces.flatMap fun piece => piece.1 ++ piece.2 := by
  induction cuts with
  | done => rfl
  | kept _ _ inductionHypothesis => rw [List.cons_append, ← inductionHypothesis]
  | found _ _ _ inductionHypothesis =>
      rw [List.nil_append, List.flatMap_cons, List.append_assoc, ← inductionHypothesis]

/-- Behind the front stands the first piece that is found, if there is any. -/
theorem Cuts.behind_front (cuts : Cuts reader text front pieces) :
    text = front ∧ pieces = [] ∨
      ∃ piece rest, text = front ++ (piece ++ rest) ∧ reader (piece ++ rest) = some rest := by
  induction cuts with
  | done => exact .inl ⟨rfl, rfl⟩
  | @kept c _ _ _ _ _ inductionHypothesis =>
      rcases inductionHypothesis with ⟨rfl, rfl⟩ | ⟨piece, rest, rfl, read⟩
      · exact .inl ⟨rfl, rfl⟩
      · exact .inr ⟨piece, rest, rfl, read⟩
  | found _ read _ _ => exact .inr ⟨_, _, rfl, read⟩

/-- Items are read as before where a text follows that no item enters. -/
theorem repeats_append {α : Type} {item : Text → Option (α × Text)} (shrinks : Shrinks item)
    {tail : Text}
    (stops : ∀ text, item (text ++ tail) = (item text).map fun read => (read.1, read.2 ++ tail))
    (text : Text) :
    repeats item (text ++ tail) =
      (repeats item text).map fun way => (way.1, way.2 ++ tail) := by
  induction text using itemwise shrinks with
  | stop text unread =>
      have still : item (text ++ tail) = none := by rw [stops, unread, Option.map_none]
      rw [repeats_of_none unread, repeats_of_none still, List.map_singleton]
  | more text first rest read inductionHypothesis =>
      have still : item (text ++ tail) = some (first, rest ++ tail) := by
        rw [stops, read, Option.map_some]
      rw [repeats_of_some shrinks read, repeats_of_some shrinks still, inductionHypothesis]
      simp [Function.comp_def]

namespace Pattern

variable {replacement : Text → Text}

/-- What a reader finds somewhere in a text. -/
theorem occurs_ofReader_iff {before : Option Char} :
    (ofReader reader).occurs before text = true ↔
      ∃ left right, text = left ++ right ∧ reader right ≠ none := by
  induction text generalizing before with
  | nil =>
      simp [occurs, ofReader, Option.isSome_iff_ne_none]
  | cons c text inductionHypothesis =>
      rw [occurs, Bool.or_eq_true, inductionHypothesis, ofReader, Option.isSome_map,
        Option.isSome_iff_ne_none]
      constructor
      · rintro (here | ⟨left, right, rfl, later⟩)
        · exact ⟨[], c :: text, rfl, here⟩
        · exact ⟨c :: left, right, rfl, later⟩
      · rintro ⟨_ | ⟨d, left⟩, right, whole, found⟩
        · rw [List.nil_append] at whole
          exact .inl (whole ▸ found)
        · exact .inr ⟨left, right, (List.cons.inj whole).2, found⟩

theorem replaceFrom_ofReader (reader : Text → Option Text) (replacement : Text → Text)
    (before other : Option Char) (text : Text) :
    replaceFrom (ofReader reader) replacement 0 before text =
      replaceFrom (ofReader reader) replacement 0 other text := by
  cases text <;> rfl

theorem replaceAll_nil (unread : reader [] = none) :
    (ofReader reader).replaceAll replacement [] = [] := by
  have found : ofReader reader none [] = none := by rw [ofReader, unread, Option.map_none]
  rw [replaceAll, replaceFrom, found]

theorem replaceAll_unread {c : Char} {rest : Text} (unread : reader (c :: rest) = none) :
    (ofReader reader).replaceAll replacement (c :: rest) =
      c :: (ofReader reader).replaceAll replacement rest := by
  have found : ofReader reader none (c :: rest) = none := by rw [ofReader, unread, Option.map_none]
  rw [replaceAll, replaceFrom_none found, replaceFrom_ofReader reader replacement (some c) none]
  rfl

theorem replaceAll_read {piece rest : Text} (filled : piece ≠ [])
    (read : reader (piece ++ rest) = some rest) :
    (ofReader reader).replaceAll replacement (piece ++ rest) =
      replacement piece ++ (ofReader reader).replaceAll replacement rest := by
  have found : ofReader reader none (piece ++ rest) = some piece.length := by
    rw [ofReader, read, Option.map_some, List.length_append, Nat.add_sub_cancel]
  rw [replaceAll, replaceFrom_matched filled found, replaceFrom_ofReader reader replacement _ none]
  rfl

/-- What is found is replaced, and everything else is kept. -/
theorem replaceAll_of_cuts (cuts : Cuts reader text front pieces) (replacement : Text → Text) :
    (ofReader reader).replaceAll replacement text =
      front ++ pieces.flatMap fun piece => replacement piece.1 ++ piece.2 := by
  induction cuts with
  | done unread => rw [replaceAll_nil unread]; rfl
  | kept unread _ inductionHypothesis =>
      rw [replaceAll_unread unread, inductionHypothesis, List.cons_append]
  | found filled read _ inductionHypothesis =>
      rw [replaceAll_read filled read, inductionHypothesis, List.nil_append, List.flatMap_cons,
        List.append_assoc]

/-- Before a text that the reader never enters and behind it, the replacements are made apart. -/
theorem replaceAll_append (consumes : Consumes reader) {tail : Text}
    (stops : ∀ text, reader (text ++ tail) = (reader text).map (· ++ tail))
    (replacement : Text → Text) (text : Text) :
    (ofReader reader).replaceAll replacement (text ++ tail) =
      (ofReader reader).replaceAll replacement text ++
        (ofReader reader).replaceAll replacement tail := by
  obtain ⟨front, pieces, cuts⟩ := exists_cuts consumes text
  induction cuts with
  | done unread => rw [replaceAll_nil unread, List.nil_append, List.nil_append]
  | @kept c rest _ _ unread _ inductionHypothesis =>
      have still : reader (c :: (rest ++ tail)) = none := by
        rw [← List.cons_append, stops, unread, Option.map_none]
      rw [List.cons_append, replaceAll_unread still, replaceAll_unread unread, inductionHypothesis,
        List.cons_append]
  | @found piece rest _ _ filled read _ inductionHypothesis =>
      have still : reader (piece ++ (rest ++ tail)) = some (rest ++ tail) := by
        rw [← List.append_assoc, stops, read, Option.map_some]
      rw [List.append_assoc, replaceAll_read filled still, replaceAll_read filled read,
        inductionHypothesis, List.append_assoc]

end Pattern

end Unpacking.Text
