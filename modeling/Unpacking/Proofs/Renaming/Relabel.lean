import Mathlib.Logic.Relation
import Unpacking.Java.Lexeme
import Unpacking.Proofs.Renaming.Fresh
import Unpacking.Text.WordCharacter

/-!
Texts in which names have been replaced by the new names that were handed out for them. What stands
at the ends of such a text and belongs to no word stays there, and no name of a class without an
underscore comes to stand at its end.
-/

namespace Unpacking.Renaming

open Java Text

/-! ### Words -/

/-- A word of a source: a name, as far as its characters go. -/
structure IsSourceWord (word : Text) : Prop where
  starts : ∃ c rest, word = c :: rest ∧ isWordStart c = true
  parts : ∀ c ∈ word, isWordPart c = true

theorem IsSourceWord.ne_nil {word : Text} (isWord : IsSourceWord word) : word ≠ [] := by
  obtain ⟨c, rest, rfl, -⟩ := isWord.starts
  simp

instance (word : Text) : Decidable (IsSourceWord word) :=
  decidable_of_iff (word.head?.any isWordStart = true ∧ word.all isWordPart = true) <| by
    constructor
    · rintro ⟨begins, parts⟩
      cases word with
      | nil => simp at begins
      | cons c rest => exact ⟨⟨c, rest, rfl, by simpa using begins⟩, List.all_eq_true.mp parts⟩
    · rintro ⟨⟨c, rest, rfl, starts⟩, parts⟩
      exact ⟨by simp [starts], List.all_eq_true.mpr parts⟩

theorem not_isDigit_of_isWordStart {c : Char} (starts : isWordStart c = true) :
    c.isDigit = false := by
  by_contra digit
  have bounds : 48 ≤ c.toNat ∧ c.toNat ≤ 57 := by
    simpa [Char.isDigit, UInt32.le_iff_toNat_le] using digit
  have known : ∀ code < 58, 48 ≤ code → isWordStart (Char.ofNat code) = false := by decide
  have other := known c.toNat (by omega) bounds.1
  rw [Char.ofNat_toNat, starts] at other
  exact absurd other (by decide)

/-! ### Texts with other names -/

/-- A name is a word, and a new name was handed out for it. -/
structure IsHanded (names : NewNames) (name new : Text) : Prop where
  isWord : IsSourceWord name
  isNew : IsNewName name new
  handed : (name, new) ∈ names

/-- One name of a text is replaced by a new name that was handed out for it. -/
inductive RelabelsOnce (names : NewNames) : Text → Text → Prop where
  | rename (left right : Text) {name new : Text} (isHanded : IsHanded names name new) :
      RelabelsOnce names (left ++ name ++ right) (left ++ new ++ right)

/-- Names of a text are replaced by new names, one after the other. -/
def Relabels (names : NewNames) : Text → Text → Prop :=
  Relation.ReflTransGen (RelabelsOnce names)

namespace Relabels

variable {names : NewNames} {old new other changed : Text}

theorem refl (text : Text) : Relabels names text text :=
  Relation.ReflTransGen.refl

theorem trans (first : Relabels names old new) (second : Relabels names new other) :
    Relabels names old other :=
  Relation.ReflTransGen.trans first second

theorem of_isHanded {name : Text} (isHanded : IsHanded names name new) :
    Relabels names name new := by
  have once := RelabelsOnce.rename [] [] isHanded
  rw [List.append_nil, List.append_nil] at once
  exact Relation.ReflTransGen.single once

theorem append_left (text : Text) (relabels : Relabels names old new) :
    Relabels names (text ++ old) (text ++ new) := by
  induction relabels with
  | refl => exact refl _
  | tail _ once inductionHypothesis =>
      refine inductionHypothesis.tail ?_
      cases once with
      | rename left right isHanded =>
          have longer := RelabelsOnce.rename (text ++ left) right isHanded
          simpa only [List.append_assoc] using longer

theorem append_right (relabels : Relabels names old new) (text : Text) :
    Relabels names (old ++ text) (new ++ text) := by
  induction relabels with
  | refl => exact refl _
  | tail _ once inductionHypothesis =>
      refine inductionHypothesis.tail ?_
      cases once with
      | rename left right isHanded =>
          have longer := RelabelsOnce.rename left (right ++ text) isHanded
          simpa only [List.append_assoc] using longer

theorem append (relabels : Relabels names old new) (also : Relabels names other changed) :
    Relabels names (old ++ other) (new ++ changed) :=
  (relabels.append_right other).trans (also.append_left new)

end Relabels

/-! ### The ends of a text -/

/-- A text that does not end inside a word. -/
def EndsApart (text : Text) : Prop :=
  ∀ c ∈ text.getLast?, isWordPart c = false

/-- A text that does not begin inside a word. -/
def BeginsApart (text : Text) : Prop :=
  ∀ c ∈ text.head?, isWordPart c = false

instance (text : Text) : Decidable (EndsApart text) :=
  decidable_of_iff ((text.getLast?.all fun c => !isWordPart c) = true) <| by
    simp only [EndsApart, Option.all_eq_true, Bool.not_eq_true', Option.mem_def]

instance (text : Text) : Decidable (BeginsApart text) :=
  decidable_of_iff ((text.head?.all fun c => !isWordPart c) = true) <| by
    simp only [BeginsApart, Option.all_eq_true, Bool.not_eq_true', Option.mem_def]

theorem not_endsApart_append {left name : Text} (filled : name ≠ [])
    (parts : ∀ c ∈ name, isWordPart c = true) : ¬EndsApart (left ++ name) := by
  intro apart
  have last := List.getLast?_eq_some_getLast filled
  have other := apart (name.getLast filled) (by rw [List.getLast?_append, last]; rfl)
  rw [parts _ (List.getLast_mem _)] at other
  exact absurd other (by decide)

theorem not_beginsApart_append {name right : Text} (isWord : IsSourceWord name) :
    ¬BeginsApart (name ++ right) := by
  intro apart
  obtain ⟨c, rest, rfl, starts⟩ := isWord.starts
  have other := apart c rfl
  rw [isWord.parts c (List.mem_cons_self ..)] at other
  exact absurd other (by decide)

namespace Relabels

variable {names : NewNames} {old new : Text}

/-- A character at the end that belongs to no word stays. -/
theorem getLast?_eq (relabels : Relabels names old new) (apart : EndsApart old) :
    new.getLast? = old.getLast? := by
  induction relabels with
  | refl => rfl
  | tail _ once same =>
      cases once with
      | rename left right isHanded =>
          by_cases empty : right = []
          · have ends : EndsApart (left ++ _ ++ right) := fun c member => apart c (same ▸ member)
            rw [empty, List.append_nil] at ends
            exact absurd ends
              (not_endsApart_append isHanded.isWord.ne_nil isHanded.isWord.parts)
          · rw [← same, List.getLast?_append_of_ne_nil _ empty,
              List.getLast?_append_of_ne_nil _ empty]

theorem endsApart (relabels : Relabels names old new) (apart : EndsApart old) : EndsApart new :=
  fun c member => apart c (relabels.getLast?_eq apart ▸ member)

/-- A character at the beginning that belongs to no word stays. -/
theorem head?_eq (relabels : Relabels names old new) (apart : BeginsApart old) :
    new.head? = old.head? := by
  induction relabels with
  | refl => rfl
  | tail _ once same =>
      cases once with
      | rename left right isHanded =>
          by_cases empty : left = []
          · have begins : BeginsApart (left ++ _ ++ right) := fun c member => apart c (same ▸ member)
            rw [empty, List.nil_append] at begins
            exact absurd begins (not_beginsApart_append isHanded.isWord)
          · rw [← same, List.append_assoc, List.append_assoc, List.head?_append_of_ne_nil _ empty,
              List.head?_append_of_ne_nil _ empty]

theorem beginsApart (relabels : Relabels names old new) (apart : BeginsApart old) :
    BeginsApart new :=
  fun c member => apart c (relabels.head?_eq apart ▸ member)

end Relabels

/-! ### Names at the end of a text -/

theorem suffix_of_not_mem {mark : Char} {piece front back : Text} (absent : mark ∉ piece)
    (ends : piece <:+ front ++ mark :: back) : piece <:+ back := by
  rcases List.suffix_or_suffix_of_suffix ends (List.suffix_append front (mark :: back)) with
    shorter | longer
  · rcases List.suffix_cons_iff.mp shorter with rfl | inside
    · exact absurd (List.mem_cons_self ..) absent
    · exact inside
  · exact absurd (longer.subset (List.mem_cons_self ..)) absent

theorem exists_label (role : Role) : ∃ base : Text, role.label = base ++ ['_'] := by
  cases role with
  | field => exact ⟨"field", rfl⟩
  | method => exact ⟨"method", rfl⟩
  | parameter => exact ⟨"arg", rfl⟩
  | localVariable => exact ⟨"local", rfl⟩

/-- What a new name ends with, the old name ends with too, if it is neither marked nor a number. -/
theorem IsNewName.suffix {old new front piece : Text} (isNew : IsNewName old new)
    (absent : '_' ∉ piece) (starts : ∀ c ∈ piece.head?, isWordStart c = true)
    (ends : piece <:+ front ++ new) : piece <:+ old := by
  obtain ⟨role, number, rfl⟩ := isNew
  obtain ⟨base, label⟩ := exists_label role
  cases number with
  | zero =>
      have whole : front ++ candidate (role.label ++ old) 0 = (front ++ base) ++ '_' :: old := by
        simp [candidate, label]
      rw [whole] at ends
      exact suffix_of_not_mem absent ends
  | succ number =>
      have whole : front ++ candidate (role.label ++ old) (number + 1) =
          (front ++ role.label ++ old) ++ '_' :: Nat.toDigits 10 (number + 1) := by
        simp [candidate]
      rw [whole] at ends
      have digits := suffix_of_not_mem absent ends
      cases piece with
      | nil => exact List.nil_suffix
      | cons c piece =>
          have digit := Nat.isDigit_of_mem_toDigits (by decide) (by decide)
            (digits.subset (List.mem_cons_self ..))
          rw [not_isDigit_of_isWordStart (starts c rfl)] at digit
          exact absurd digit (by decide)

/-- A new name has no other characters than its old name and those of its label and number. -/
theorem IsNewName.forall_mem {old new : Text} (isNew : IsNewName old new) {good : Char → Prop}
    (ascii : ∀ c, isAsciiWord c = true → good c) (parts : ∀ c ∈ old, good c) :
    ∀ c ∈ new, good c := by
  obtain ⟨role, number, rfl⟩ := isNew
  have label : ∀ c ∈ role.label, isAsciiWord c = true := by
    rw [← List.all_eq_true]
    cases role <;> decide
  have labelled : ∀ c ∈ role.label ++ old, good c := by
    intro c member
    rcases List.mem_append.mp member with inLabel | inside
    · exact ascii c (label c inLabel)
    · exact parts c inside
  cases number with
  | zero => exact labelled
  | succ number =>
      intro c member
      rcases List.mem_append.mp member with inside | digit
      · rcases List.mem_append.mp inside with inside | mark
        · exact labelled c inside
        · rw [List.mem_singleton.mp mark]
          exact ascii '_' (by decide)
      · have isDigit := Nat.isDigit_of_mem_toDigits (by decide) (by decide) digit
        exact ascii c (by simp [isAsciiWord, Char.isAlphanum, isDigit])

theorem IsNewName.ne_nil {old new : Text} (isNew : IsNewName old new) : new ≠ [] := by
  obtain ⟨role, number, rfl⟩ := isNew
  obtain ⟨base, label⟩ := exists_label role
  cases number <;> simp [candidate, label]

theorem isWordPart_of_isAsciiWord {c : Char} (ascii : isAsciiWord c = true) :
    isWordPart c = true := by
  simp only [isAsciiWord, Char.isAlphanum, Bool.or_eq_true] at ascii
  rcases ascii with (alpha | digit) | mark
  · simp [isWordPart, isWordStart, alpha]
  · simp [isWordPart, digit]
  · simp [isWordPart, isWordStart, mark]

/-- A name that stands at the end of a text with a new name stood there before. -/
theorem IsNewName.suffix_append {old new className left right : Text} (isNew : IsNewName old new)
    (isClass : IsSourceWord className) (unmarked : '_' ∉ className)
    (ends : className <:+ left ++ new ++ right) : className <:+ left ++ old ++ right := by
  rcases List.suffix_or_suffix_of_suffix ends (List.suffix_append _ right) with
    inside | ⟨piece, rfl⟩
  · exact inside.trans (List.suffix_append _ right)
  · obtain ⟨front, whole⟩ := ends
    rw [← List.append_assoc] at whole
    have starts : ∀ c ∈ piece.head?, isWordStart c = true := by
      obtain ⟨c, rest, beginning, starts⟩ := isClass.starts
      intro d member
      obtain ⟨tail, rfl⟩ := List.head?_eq_some_iff.mp member
      rw [(List.cons.inj beginning).1]
      exact starts
    obtain ⟨rest, rfl⟩ := isNew.suffix (fun mark => unmarked (by simp [mark])) starts
      ⟨front, List.append_cancel_right whole⟩
    exact ⟨left ++ rest, by simp only [List.append_assoc]⟩

theorem RelabelsOnce.suffix {names : NewNames} {old new className : Text}
    (once : RelabelsOnce names old new) (isClass : IsSourceWord className)
    (unmarked : '_' ∉ className) (ends : className ++ ['.'] <:+ new) :
    className ++ ['.'] <:+ old := by
  cases once with
  | @rename left right name fresh isHanded =>
      obtain ⟨isWord, isNew, -⟩ := isHanded
      obtain ⟨front, whole⟩ := ends
      rw [← List.append_assoc] at whole
      rcases List.eq_nil_or_concat' right with rfl | ⟨right, last, rfl⟩
      · -- A new name does not end with a dot.
        have last := congrArg List.getLast? whole
        rw [List.append_nil, List.getLast?_concat,
          List.getLast?_append_of_ne_nil _ isNew.ne_nil] at last
        have part := isNew.forall_mem (fun _ => isWordPart_of_isAsciiWord) isWord.parts '.'
          (List.mem_of_getLast? last.symm)
        exact absurd part (by decide)
      · rw [← List.append_assoc] at whole ⊢
        obtain ⟨whole, same⟩ := List.append_inj' whole rfl
        obtain ⟨rest, old⟩ := isNew.suffix_append isClass unmarked ⟨front, whole⟩
        exact ⟨rest, by rw [← same, ← old]; simp only [List.append_assoc]⟩

/-- The name of a class does not come to stand at the end. -/
theorem Relabels.not_suffix {names : NewNames} {old new className : Text}
    (isClass : IsSourceWord className) (unmarked : '_' ∉ className)
    (relabels : Relabels names old new) (absent : ¬className ++ ['.'] <:+ old) :
    ¬className ++ ['.'] <:+ new := by
  induction relabels with
  | refl => exact absent
  | tail _ once inductionHypothesis =>
      exact fun ends => inductionHypothesis (once.suffix isClass unmarked ends)

end Unpacking.Renaming
