import Unpacking.Proofs.Reflection.Idempotence
import Unpacking.Proofs.Text.Pattern

/-!
Texts whose words are no terms of reflection. A word is a longest run of word characters, so what a
piece of text adds to the words of a longer text depends on the characters on either side of it. A
removal finds nothing in such a text.
-/

namespace Unpacking.Text

theorem isWord_of_isBlank {c : Char} (blank : isBlank c = true) : isWord c = false := by
  have other := Reflection.isNameCharacter_of_isBlank blank
  rw [isNameCharacter, Bool.or_eq_false_iff] at other
  exact other.1

theorem isWord_of_isAlphanum {c : Char} (alphanumeric : c.isAlphanum = true) :
    isWord c = true := by
  have inName : isNameCharacter c = true :=
    Reflection.isNameCharacter_of_isVariableCharacter (by
      simp [Reflection.isVariableCharacter, alphanumeric])
  rw [isNameCharacter, Bool.or_eq_true, beq_iff_eq] at inName
  rcases inName with inWord | rfl
  · exact inWord
  · exact absurd alphanumeric (by decide)

end Unpacking.Text

namespace Unpacking.Reflection

open Text Line

/-! ### Words -/

/-- The word that a text goes on with. -/
def leadingWord (text : Text) : Text :=
  text.takeWhile isWord

theorem leadingWord_of_pos {c : Char} (inWord : isWord c = true) (rest : Text) :
    leadingWord (c :: rest) = c :: leadingWord rest :=
  List.takeWhile_cons_of_pos inWord

theorem leadingWord_of_neg {c : Char} (other : isWord c = false) (rest : Text) :
    leadingWord (c :: rest) = [] :=
  List.takeWhile_cons_of_neg (by simp [other])

theorem leadingWord_of_head {text : Text} (other : isWordAt text.head? = false) :
    leadingWord text = [] := by
  cases text with
  | nil => rfl
  | cons c rest => exact leadingWord_of_neg other rest

theorem leadingWord_append {word : Text} (inWord : ∀ c ∈ word, isWord c = true) (rest : Text) :
    leadingWord (word ++ rest) = word ++ leadingWord rest :=
  List.takeWhile_append_of_pos inWord

/-- A text that ends outside of a word, or is followed by something else than a word character,
keeps the word at its front. The character before it belongs to that word. -/
theorem leadingWord_append_of_apart {before : Option Char} {text rest : Text}
    (inside : isWordAt before = true)
    (apart : isWordAt (lastOr before text) = false ∨ isWordAt rest.head? = false) :
    leadingWord (text ++ rest) = leadingWord text := by
  induction text generalizing before with
  | nil =>
      rcases apart with outside | other
      · rw [lastOr_nil, inside] at outside
        exact Bool.noConfusion outside
      · exact leadingWord_of_head other
  | cons c text inductionHypothesis =>
      rw [lastOr_cons] at apart
      rw [List.cons_append]
      by_cases inWord : isWord c = true
      · rw [leadingWord_of_pos inWord, leadingWord_of_pos inWord,
          inductionHypothesis (show isWordAt (some c) = true from inWord) apart]
      · rw [Bool.not_eq_true] at inWord
        rw [leadingWord_of_neg inWord, leadingWord_of_neg inWord]

/-! ### Inert texts -/

/-- No word of a text is a term of reflection. The text stands behind a given character; a word that
goes on from there does not count. -/
def IsInert : Option Char → Text → Prop
  | _, [] => True
  | before, c :: rest =>
    (isWordAt before = false → leadingWord (c :: rest) ∉ vocabulary) ∧ IsInert (some c) rest

/-- Whether a text is inert can be computed. -/
def decideInert : (before : Option Char) → (text : Text) → Decidable (IsInert before text)
  | _, [] => .isTrue trivial
  | before, c :: rest =>
    have := decideInert (some c) rest
    inferInstanceAs (Decidable
      ((isWordAt before = false → leadingWord (c :: rest) ∉ vocabulary) ∧ IsInert (some c) rest))

instance (before : Option Char) (text : Text) : Decidable (IsInert before text) :=
  decideInert before text

theorem isInert_nil {before : Option Char} : IsInert before [] :=
  trivial

theorem isInert_cons {before : Option Char} {c : Char} {rest : Text} :
    IsInert before (c :: rest) ↔
      (isWordAt before = false → leadingWord (c :: rest) ∉ vocabulary) ∧ IsInert (some c) rest :=
  Iff.rfl

theorem nil_not_mem_vocabulary : [] ∉ vocabulary := by decide

/-- All that counts of the character before a text is whether it is a word character. -/
theorem IsInert.congr {before other : Option Char} {text : Text}
    (same : isWordAt other = isWordAt before) (inert : IsInert before text) :
    IsInert other text := by
  cases text with
  | nil => trivial
  | cons c rest => exact ⟨fun outside => inert.1 (same ▸ outside), inert.2⟩

/-- A text stays inert when its first word is the end of a longer one. -/
theorem IsInert.behind {text : Text} (inert : IsInert none text) (before : Option Char) :
    IsInert before text := by
  cases text with
  | nil => trivial
  | cons c rest => exact ⟨fun _ => inert.1 rfl, inert.2⟩

/-- What does not begin with a word character is inert wherever it stands. -/
theorem IsInert.of_head {before : Option Char} {text : Text}
    (other : isWordAt text.head? = false) (inert : IsInert before text) : IsInert none text := by
  cases text with
  | nil => trivial
  | cons c rest =>
      refine ⟨fun _ => ?_, inert.2⟩
      rw [leadingWord_of_head other]
      exact nil_not_mem_vocabulary

theorem IsInert.drop {before : Option Char} {text rest : Text}
    (inert : IsInert before (text ++ rest)) : IsInert (lastOr before text) rest := by
  induction text generalizing before with
  | nil => exact inert
  | cons c text inductionHypothesis =>
      rw [lastOr_cons]
      exact inductionHypothesis inert.2

/-- Two pieces with no word across their junction are inert together if each of them is. -/
theorem isInert_append {before : Option Char} {text rest : Text}
    (apart : isWordAt (lastOr before text) = false ∨ isWordAt rest.head? = false) :
    IsInert before (text ++ rest) ↔ IsInert before text ∧ IsInert none rest := by
  induction text generalizing before with
  | nil =>
      have there : IsInert before rest ↔ IsInert none rest := by
        refine ⟨fun inert => ?_, fun inert => inert.behind before⟩
        rcases apart with outside | other
        · exact inert.congr outside.symm
        · exact inert.of_head other
      simpa [IsInert] using there
  | cons c text inductionHypothesis =>
      rw [lastOr_cons] at apart
      have word : leadingWord (c :: (text ++ rest)) = leadingWord (c :: text) := by
        by_cases inWord : isWord c = true
        · rw [leadingWord_of_pos inWord, leadingWord_of_pos inWord,
            leadingWord_append_of_apart (show isWordAt (some c) = true from inWord) apart]
        · rw [Bool.not_eq_true] at inWord
          rw [leadingWord_of_neg inWord, leadingWord_of_neg inWord]
      rw [List.cons_append, isInert_cons, isInert_cons, word, inductionHypothesis apart, and_assoc]

theorem isInert_cons_of_neg {before : Option Char} {c : Char} {rest : Text}
    (other : isWord c = false) (inert : IsInert none rest) : IsInert before (c :: rest) := by
  refine ⟨fun _ => ?_, inert.behind _⟩
  rw [leadingWord_of_neg other]
  exact nil_not_mem_vocabulary

/-- A character that is no word character keeps the words on its two sides apart. -/
theorem isInert_append_cons {before : Option Char} {text : Text} {c : Char} {rest : Text}
    (other : isWord c = false) :
    IsInert before (text ++ c :: rest) ↔ IsInert before text ∧ IsInert none rest := by
  have apart : isWordAt (c :: rest).head? = false := other
  rw [isInert_append (.inr apart)]
  refine and_congr_right fun _ => ⟨fun inert => ?_, isInert_cons_of_neg other⟩
  exact inert.2.congr (show isWordAt none = isWordAt (some c) from other.symm)

/-- A text that holds no term at all is inert. -/
theorem isInert_of_absent {text : Text} (absent : ∀ term ∈ vocabulary, ¬term <:+: text)
    (before : Option Char) : IsInert before text := by
  induction text generalizing before with
  | nil => trivial
  | cons c rest inductionHypothesis =>
      refine ⟨fun _ listed => ?_, inductionHypothesis (fun term listed inside => ?_) _⟩
      · exact absent _ listed (List.takeWhile_prefix isWord).isInfix
      · exact absent term listed (inside.trans (List.suffix_cons c rest).isInfix)

/-- A text without a word character is inert. -/
theorem isInert_of_forall {text : Text} (other : ∀ c ∈ text, isWord c = false)
    (before : Option Char) : IsInert before text := by
  induction text generalizing before with
  | nil => trivial
  | cons c rest inductionHypothesis =>
      have others := inductionHypothesis (fun d member => other d (by simp [member])) none
      exact isInert_cons_of_neg (other c (by simp)) others

/-! ### Blanks -/

theorem isWordAt_lastOr_of_blank {head : Text}
    (blank : ∀ c, head.getLast? = some c → isBlank c = true) :
    isWordAt (lastOr none head) = false := by
  rw [lastOr]
  split
  · rename_i c last
    exact isWord_of_isBlank (blank c last)
  · rfl

theorem IsInert.of_isBehindBlank {text rest : Text} (inert : IsInert none text)
    (behind : IsBehindBlank text rest) : IsInert none rest := by
  obtain ⟨head, rfl, blank⟩ := behind
  exact ((isInert_append (.inl (isWordAt_lastOr_of_blank blank))).mp inert).2

theorem isInert_indentation_append (line : Line) {rest : Text} (inert : IsInert none rest) :
    IsInert none (indentation line ++ rest) := by
  have blank : ∀ c ∈ indentation line, isBlank c = true :=
    fun c member => List.mem_takeWhile_imp member
  have apart := isWordAt_lastOr_of_blank fun c last => blank c (List.mem_of_getLast? last)
  have alone := isInert_of_forall (fun c member => isWord_of_isBlank (blank c member)) none
  exact (isInert_append (.inl apart)).mpr ⟨alone, inert⟩

theorem IsInert.trimStart {text : Text} (inert : IsInert none text) :
    IsInert none (trimStart text) :=
  inert.of_isBehindBlank (.trimStart text)

theorem IsInert.trimEnd {before : Option Char} {text : Text} (inert : IsInert before text) :
    IsInert before (trimEnd text) := by
  have whole : Text.trimEnd text ++ (text.reverse.takeWhile isBlank).reverse = text := by
    rw [Text.trimEnd, ← List.reverse_append, List.takeWhile_append_dropWhile, List.reverse_reverse]
  have blank : ∀ c ∈ (text.reverse.takeWhile isBlank).reverse, isBlank c = true :=
    fun c member => List.mem_takeWhile_imp (List.mem_reverse.mp member)
  have apart : isWordAt (text.reverse.takeWhile isBlank).reverse.head? = false := by
    cases rest : (text.reverse.takeWhile isBlank).reverse with
    | nil => rfl
    | cons c rest => exact isWord_of_isBlank (blank c (by simp [rest]))
  rw [← whole] at inert
  exact ((isInert_append (.inr apart)).mp inert).1

/-! ### Lines -/

theorem IsInert.dropReturn {line : Line} (inert : IsInert none line) :
    IsInert none (dropReturn line) := by
  rcases dropReturn_cases line with same | longer
  · rwa [same]
  · rw [longer] at inert
    exact ((isInert_append_cons (by decide)).mp inert).1

theorem IsInert.of_mem_lines {text : Text} {line : Line} (inert : IsInert none text)
    (member : line ∈ lines text) : IsInert none line := by
  induction text using linewise with
  | empty => simp [lines] at member
  | single whole unbroken filled =>
      rw [lines_of_unbroken unbroken filled, List.mem_singleton] at member
      exact member ▸ inert
  | closed first rest unbroken inductionHypothesis =>
      obtain ⟨here, there⟩ := (isInert_append_cons (by decide)).mp inert
      rw [lines_append_newline unbroken, List.mem_cons] at member
      rcases member with rfl | later
      · exact here.dropReturn
      · exact inductionHypothesis there later

theorem isInert_unlines {lines : List Line} (inert : ∀ line ∈ lines, IsInert none line)
    (closed : Bool) : IsInert none (unlines lines closed) := by
  induction lines with
  | nil => cases closed <;> trivial
  | cons line rest inductionHypothesis =>
      have first := inert line (by simp)
      have others := inductionHypothesis fun other member => inert other (by simp [member])
      cases rest with
      | nil =>
          rw [unlines_singleton]
          refine (isInert_append (.inr ?_)).mpr ⟨first, ?_⟩ <;> cases closed <;> decide
      | cons next rest =>
          rw [unlines_cons_cons]
          exact (isInert_append_cons (by decide)).mpr ⟨first, others⟩

theorem IsInert.overLines {change : List Line → List Line} {text : Text}
    (inert : IsInert none text)
    (keeps : (∀ line ∈ lines text, IsInert none line) →
      ∀ line ∈ change (lines text), IsInert none line) :
    IsInert none (overLines change text) :=
  isInert_unlines (keeps fun _ member => inert.of_mem_lines member) _

theorem IsInert.mapLines {change : Line → Line} {text : Text} (inert : IsInert none text)
    (keeps : ∀ line, IsInert none line → IsInert none (change line)) :
    IsInert none (mapLines change text) := by
  refine inert.overLines fun inLines line member => ?_
  obtain ⟨old, inside, rfl⟩ := List.mem_map.mp member
  exact keeps old (inLines old inside)

/-! ### Removal -/

theorem isWord_of_isDelimiter {c : Char} (delimiter : isDelimiter c = true) :
    isWord c = false := by
  have other := isNameCharacter_of_isDelimiter delimiter
  rw [isNameCharacter, Bool.or_eq_false_iff] at other
  exact other.1

/-- A term that stands at the front of a text is the whole word there. -/
theorem leadingWord_of_standsAt {term text : Text} (listed : term ∈ vocabulary)
    (stands : standsAt term text = true) : leadingWord text = term := by
  have letters : ∀ term ∈ vocabulary, term.all isWord = true := by decide +kernel
  have inWord := List.all_eq_true.mp (letters term listed)
  rw [standsAt] at stands
  split at stands
  · rename_i c rest found
    rw [after?_eq_some found, leadingWord_append inWord,
      leadingWord_of_neg (isWord_of_isDelimiter stands), List.append_nil]
  · rename_i found
    rw [after?_eq_some found, List.append_nil, leadingWord, List.takeWhile_eq_self_iff]
    exact inWord
  · exact Bool.noConfusion stands

theorem IsInert.not_standsAt {before : Option Char} {term text : Text}
    (inert : IsInert before text) (outside : isWordAt before = false)
    (listed : term ∈ vocabulary) : standsAt term text = false := by
  rw [Bool.eq_false_iff]
  intro stands
  rw [← leadingWord_of_standsAt listed stands] at listed
  cases text with
  | nil => exact nil_not_mem_vocabulary listed
  | cons c rest => exact inert.1 outside listed

theorem IsInert.not_occurs {term : Text} {line : Line} (inert : IsInert none line)
    (listed : term ∈ vocabulary) : occurs term line = false := by
  have behind {before : Option Char} {text : Text} (inert : IsInert before text) :
      standsBehind term text = false := by
    induction text generalizing before with
    | nil => rfl
    | cons c rest inductionHypothesis =>
        rw [standsBehind, inductionHypothesis inert.2, Bool.or_false, Bool.and_eq_false_imp]
        intro delimiter
        exact inert.2.not_standsAt (isWord_of_isDelimiter delimiter) listed
  rw [occurs, inert.not_standsAt rfl listed, behind inert]
  rfl

theorem IsInert.isQuiet {term : Text} {line : Line} (inert : IsInert none line)
    (listed : term ∈ vocabulary) : IsQuiet term line where
  opening := by
    intro method opened
    obtain ⟨-, signature, -, -, rfl⟩ := openMethod?_eq_some opened
    simp only [returnsInline]
    split
    · rename_i head body cut
      rw [cut?_eq_some cut] at inert
      have inBody := ((isInert_append_cons (by decide)).mp inert).2.trimStart
      rw [inBody.not_occurs listed, Bool.and_false]
    · rfl
  inside := by
    rw [returnsTerm, inert.not_occurs listed, Bool.and_false]

theorem IsInert.rewritten {text : Text} (inert : IsInert none text) :
    IsInert none (unlines (lines text) (endsWithNewline text)) :=
  isInert_unlines (fun _ member => inert.of_mem_lines member) _

/-- A sweep of an inert text finds nothing, and leaves an inert text behind. -/
theorem IsInert.sweep {term text : Text} (inert : IsInert none text)
    (listed : term ∈ vocabulary) :
    ∃ swept, IsInert none swept ∧ ({ text } : Removal).sweep term = .ok { text := swept } := by
  have methods := methodPass_of_isQuiet fun line member =>
    (inert.of_mem_lines member).isQuiet listed
  have again := inert.rewritten
  have lines := linePass_of_staysLive fun line member => by
    rw [staysLive, (again.of_mem_lines member).not_occurs listed]
    simp
  refine ⟨_, again.rewritten, ?_⟩
  simp only [Removal.sweep, methods, lines]
  rfl

theorem IsInert.sweepAll {terms : List Text} {text : Text} (inert : IsInert none text)
    (listed : ∀ term ∈ terms, term ∈ vocabulary) :
    ∃ swept, ({ text } : Removal).sweepAll terms = .ok { text := swept } := by
  induction terms generalizing text with
  | nil => exact ⟨text, rfl⟩
  | cons term rest inductionHypothesis =>
      obtain ⟨swept, still, first⟩ := inert.sweep (listed term (by simp))
      obtain ⟨last, others⟩ := inductionHypothesis still fun other member =>
        listed other (by simp [member])
      refine ⟨last, ?_⟩
      rw [Removal.sweepAll_cons, first]
      exact others

/-- A removal has nothing to do on an inert text. -/
theorem IsInert.remove {text : Text} (inert : IsInert none text) :
    ∃ removal, remove vocabulary text = .ok removal ∧ removal.hits = 0 := by
  obtain ⟨swept, done⟩ := inert.sweepAll fun _ listed => listed
  refine ⟨{ text := swept }, ?_, rfl⟩
  rw [remove_eq_drain done]
  rfl

-- From here on the lemmas above are used; unfolding would evaluate whole stages.
attribute [irreducible] IsInert

end Unpacking.Reflection
