import Unpacking.Proofs.Package.Facts
import Unpacking.Proofs.Reflection.Inert

/-!
Changes of a text that bring no term of reflection into it. What takes the place of a match may grow
together with the characters on either side, so a change is harmless only if no junction makes a
term. Two kinds of replacement always are: a run of word characters that no term holds, and a closed
piece whose first word ends no term.
-/

namespace Unpacking.Reflection

open Text

/-- A text may take the place of another one: behind any character an inert text stays inert, and
the word at the front is the same or ends no term. -/
structure Revises (old new : Text) : Prop where
  word : leadingWord new = leadingWord old ∨ ∀ term ∈ vocabulary, ¬leadingWord new <:+ term
  inert : ∀ before, IsInert before old → IsInert before new

namespace Revises

theorem refl (text : Text) : Revises text text :=
  ⟨.inl rfl, fun _ => id⟩

theorem trans {old mid new : Text} (first : Revises old mid) (second : Revises mid new) :
    Revises old new where
  word := by
    rcases second.word with same | foreign
    · rw [same]
      exact first.word
    · exact .inr foreign
  inert := fun before inert => second.inert before (first.inert before inert)

/-- What stands before a change does not matter. -/
theorem cons {old new : Text} (revises : Revises old new) (c : Char) :
    Revises (c :: old) (c :: new) := by
  by_cases inWord : isWord c = true
  · have longer (term : Text) (ends : leadingWord (c :: new) <:+ term) :
        leadingWord new <:+ term := by
      rw [leadingWord_of_pos inWord] at ends
      exact (List.suffix_cons c _).trans ends
    constructor
    · rcases revises.word with same | foreign
      · left
        rw [leadingWord_of_pos inWord, leadingWord_of_pos inWord, same]
      · exact .inr fun term listed ends => foreign term listed (longer term ends)
    · intro before inert
      obtain ⟨here, later⟩ := isInert_cons.mp inert
      refine isInert_cons.mpr ⟨fun outside listed => ?_, revises.inert _ later⟩
      rcases revises.word with same | foreign
      · apply here outside
        rwa [leadingWord_of_pos inWord, ← same, ← leadingWord_of_pos inWord]
      · exact foreign _ listed (longer _ List.suffix_rfl)
  · rw [Bool.not_eq_true] at inWord
    constructor
    · left
      rw [leadingWord_of_neg inWord, leadingWord_of_neg inWord]
    · intro before inert
      refine isInert_cons.mpr ⟨fun _ => ?_, revises.inert _ (isInert_cons.mp inert).2⟩
      rw [leadingWord_of_neg inWord]
      exact nil_not_mem_vocabulary

theorem append {old new : Text} (revises : Revises old new) (text : Text) :
    Revises (text ++ old) (text ++ new) := by
  induction text with
  | nil => exact revises
  | cons c text inductionHypothesis => exact inductionHypothesis.cons c

end Revises

/-- What does not stand in a word may be dropped up to the end of a word. -/
theorem Revises.delete {matched rest : Text} (front : isWordAt (matched ++ rest).head? = false)
    (behind : isWordAt rest.head? = false) : Revises (matched ++ rest) rest where
  word := by
    left
    rw [leadingWord_of_head front, leadingWord_of_head behind]
  inert := fun before inert => (inert.drop.of_head behind).behind before

/-! ### Words that no term holds -/

/-- Inside of a word no other word begins. -/
theorem IsInert.inside {before other : Option Char} {text : Text} (inert : IsInert other text)
    (inWord : isWordAt before = true) : IsInert before text := by
  cases text with
  | nil => exact isInert_nil
  | cons c rest =>
      refine isInert_cons.mpr ⟨fun outside => ?_, (isInert_cons.mp inert).2⟩
      rw [inWord] at outside
      exact Bool.noConfusion outside

/-- A word that began before the text is no new word. -/
theorem IsInert.append_inside {before other : Option Char} {word text : Text}
    (inert : IsInert other text) (inWord : isWordAt before = true)
    (members : ∀ c ∈ word, isWord c = true) : IsInert before (word ++ text) := by
  induction word generalizing before with
  | nil => exact inert.inside inWord
  | cons c word inductionHypothesis =>
      have next : IsInert (some c) (word ++ text) :=
        inductionHypothesis (members c (by simp)) fun d member => members d (by simp [member])
      refine isInert_cons.mpr ⟨fun outside => ?_, next⟩
      rw [inWord] at outside
      exact Bool.noConfusion outside

/-- A run of word characters that no term holds. -/
structure IsStrange (word : Text) : Prop where
  inWord : ∀ c ∈ word, isWord c = true
  foreign : ∀ term ∈ vocabulary, ¬word <:+: term

instance (word : Text) : Decidable (IsStrange word) :=
  decidable_of_iff (word.all isWord = true ∧ ∀ term ∈ vocabulary, ¬occursIn word term = true) (by
    simp only [List.all_eq_true, occursIn_iff_infix]
    exact ⟨fun both => ⟨both.1, both.2⟩, fun strange => ⟨strange.inWord, strange.foreign⟩⟩)

namespace IsStrange

variable {word : Text}

/-- A character that belongs to no term makes a word strange. -/
theorem of_mem {c : Char} (inWord : ∀ d ∈ word, isWord d = true) (member : c ∈ word)
    (foreign : ∀ term ∈ vocabulary, c ∉ term) : IsStrange word where
  inWord := inWord
  foreign := fun term listed inside => foreign term listed (inside.mem member)

theorem ne_nil (strange : IsStrange word) : word ≠ [] := by
  intro empty
  have listed : ("invoke" : Text) ∈ vocabulary := by decide
  exact strange.foreign _ listed (empty ▸ List.nil_infix)

theorem leadingWord_append (strange : IsStrange word) (text : Text) :
    ∀ term ∈ vocabulary, ¬leadingWord (word ++ text) <:+ term := by
  intro term listed ends
  rw [Reflection.leadingWord_append strange.inWord] at ends
  exact strange.foreign term listed ((List.prefix_append word _).isInfix.trans ends.isInfix)

/-- What stands behind a strange word only has to be inert inside of a word. -/
theorem isInert_append (strange : IsStrange word) {other : Option Char} {text : Text}
    (inert : IsInert other text) (before : Option Char) : IsInert before (word ++ text) := by
  have front := strange.leadingWord_append text
  obtain ⟨c, word, rfl⟩ := List.exists_cons_of_ne_nil strange.ne_nil
  have inWord := strange.inWord
  refine isInert_cons.mpr ⟨fun _ listed => front _ listed List.suffix_rfl, ?_⟩
  exact inert.append_inside (inWord c (by simp)) fun d member => inWord d (by simp [member])

/-- A strange word may take the place of anything. -/
theorem revises (strange : IsStrange word) {rest new : Text} (revises : Revises rest new)
    (matched : Text) : Revises (matched ++ rest) (word ++ new) where
  word := .inr (strange.leadingWord_append new)
  inert := fun before inert => strange.isInert_append (revises.inert _ inert.drop) before

end IsStrange

/-! ### Closed pieces -/

/-- An inert piece of text that ends outside of a word, and whose first word ends no term. -/
structure IsStandIn (piece : Text) : Prop where
  front : ∀ term ∈ vocabulary, ¬leadingWord piece <:+ term
  inert : IsInert none piece
  closed : isWordAt (lastOr none piece) = false

instance (piece : Text) : Decidable (IsStandIn piece) :=
  decidable_of_iff ((∀ term ∈ vocabulary, ¬leadingWord piece <:+ term) ∧ IsInert none piece ∧
      isWordAt (lastOr none piece) = false)
    ⟨fun all => ⟨all.1, all.2.1, all.2.2⟩,
      fun standIn => ⟨standIn.front, standIn.inert, standIn.closed⟩⟩

namespace IsStandIn

variable {piece : Text}

theorem ne_nil (standIn : IsStandIn piece) : piece ≠ [] := by
  rintro rfl
  have listed : ("invoke" : Text) ∈ vocabulary := by decide
  exact standIn.front _ listed List.nil_suffix

theorem closed_behind (standIn : IsStandIn piece) (before : Option Char) :
    isWordAt (lastOr before piece) = false := by
  rw [lastOr_of_ne_nil standIn.ne_nil before none, standIn.closed]

theorem leadingWord_append (standIn : IsStandIn piece) (text : Text) :
    leadingWord (piece ++ text) = leadingWord piece := by
  have inWord : isWordAt (some 'a') = true := by decide
  exact leadingWord_append_of_apart inWord (.inl (standIn.closed_behind (some 'a')))

theorem isInert_append (standIn : IsStandIn piece) {text : Text} (inert : IsInert none text)
    (before : Option Char) : IsInert before (piece ++ text) :=
  (Reflection.isInert_append (.inl (standIn.closed_behind before))).mpr
    ⟨standIn.inert.behind before, inert⟩

/-- A stand-in may take the place of anything, if what follows may begin with a word. -/
theorem revises (standIn : IsStandIn piece) {old new : Text}
    (opens : ∀ before, IsInert before old → IsInert none new) : Revises old (piece ++ new) where
  word := by
    rw [standIn.leadingWord_append]
    exact .inr standIn.front
  inert := fun before inert => standIn.isInert_append (opens before inert) before

end IsStandIn

/-- What follows a word boundary begins no word, or a word of its own. -/
theorem IsInert.behind_boundary {before other : Option Char} {matched rest : Text}
    (inert : IsInert before (matched ++ rest)) (filled : matched ≠ [])
    (boundary : isBoundary (lastOr other matched) rest.head? = true) : IsInert none rest := by
  have behind := inert.drop
  rw [lastOr_of_ne_nil filled before other] at behind
  by_cases inWord : isWordAt (lastOr other matched) = true
  · exact behind.of_head (isWordAt_of_isBoundary inWord boundary)
  · apply behind.congr
    simpa [isWordAt] using inWord

/-! ### Replacement of matches -/

theorem Revises.replaceAll {pattern : Pattern} {replacement : Text → Text}
    (step : ∀ before text size new, pattern before text = some size →
      Revises (text.drop size) new → Revises text (replacement (text.take size) ++ new))
    (text : Text) : Revises text (pattern.replaceAll replacement text) := by
  exact @Pattern.replaceFrom_induction pattern replacement (fun _ => Revises) (fun _ => .refl [])
    (fun _ c _ _ _ revises => revises.cons c) step text none

theorem IsStrange.replaceAll {word : Text} (strange : IsStrange word) (pattern : Pattern)
    (text : Text) : Revises text (pattern.replaceAll (fun _ => word) text) := by
  apply Revises.replaceAll
  intro before text size new found revises
  have replaced := strange.revises revises (text.take size)
  rwa [List.take_append_drop] at replaced

/-- A stand-in may take the place of a whole word. -/
theorem IsStandIn.replaceAll {piece word : Text} (standIn : IsStandIn piece) (filled : word ≠ [])
    (text : Text) : Revises text ((Pattern.wholeWord word).replaceAll (fun _ => piece) text) := by
  apply Revises.replaceAll
  intro before text size new found revises
  have boundary := (Pattern.of_toBoundary found).2
  rw [Pattern.take_of_wholeWord found] at boundary
  have whole : text = word ++ text.drop size := by
    rw [← Pattern.take_of_wholeWord found, List.take_append_drop]
  apply standIn.revises
  intro other inert
  rw [whole] at inert
  exact revises.inert none (inert.behind_boundary filled boundary)

/-- A strange word behind a stand-in may take the place of anything. -/
theorem IsStandIn.replaceAll_append {piece word : Text} (standIn : IsStandIn piece)
    (strange : IsStrange word) (pattern : Pattern) (text : Text) :
    Revises text (pattern.replaceAll (fun _ => piece ++ word) text) := by
  apply Revises.replaceAll
  intro before text size new found revises
  rw [List.append_assoc]
  apply standIn.revises
  intro other inert
  rw [← List.take_append_drop size text] at inert
  exact strange.isInert_append (revises.inert _ inert.drop) none

end Unpacking.Reflection
