import Unpacking.Proofs.Text.Pattern

/-!
The places of a text where a word stands alone, with no other word character next to it. A search
for the whole word finds all of them, and if the replacement does not hold the word itself, none is
left when all are replaced. Main statements: `count_wholeWord`, `isReplaced_replaceAll`.
-/

namespace Unpacking.Text

/-- Whether a word stands alone at a place of a text, given the character before the text. -/
def isWholeWordAt (word : Text) (before : Option Char) (text : Text) (place : Nat) : Bool :=
  begins word (text.drop place) && !isWordAt (lastOr before (text.take place)) &&
    !isWordAt (text.drop (place + word.length)).head?

/-- The number of places where a word stands alone in a text. -/
def occurrences (word : Text) (before : Option Char) (text : Text) : Nat :=
  (List.range text.length).countP (isWholeWordAt word before text)

/-- The new text comes from the old one by putting a replacement in the place of a word wherever it
stands alone, and the word stands alone nowhere in the new text. -/
structure IsReplaced (word replacement old new : Text) : Prop where
  pieces : ∃ pieces, old = join word pieces ∧ new = join replacement pieces ∧
    pieces.length = occurrences word none old + 1
  gone : occurrences word none new = 0

variable {word : Text} {before : Option Char}

theorem isWholeWordAt_cons_succ (c : Char) (rest : Text) (place : Nat) :
    isWholeWordAt word before (c :: rest) (place + 1) =
      isWholeWordAt word (some c) rest place := by
  simp only [isWholeWordAt, List.drop_succ_cons, List.take_succ_cons, lastOr_cons,
    Nat.add_right_comm place 1]

theorem isWholeWordAt_zero_iff {text : Text} :
    isWholeWordAt word before text 0 = true ↔
      ∃ rest, text = word ++ rest ∧ isWordAt before = false ∧ isWordAt rest.head? = false := by
  simp only [isWholeWordAt, List.drop_zero, List.take_zero, lastOr_nil, Nat.zero_add, begins,
    Bool.and_eq_true, Bool.not_eq_true', List.isPrefixOf_iff_prefix]
  constructor
  · rintro ⟨⟨⟨rest, rfl⟩, outside⟩, ends⟩
    rw [List.drop_left] at ends
    exact ⟨rest, rfl, outside, ends⟩
  · rintro ⟨rest, rfl, outside, ends⟩
    rw [List.drop_left]
    exact ⟨⟨List.prefix_append word rest, outside⟩, ends⟩

theorem isWholeWordAt_of_isWordAt (inWord : isWordAt before = true) (text : Text) :
    isWholeWordAt word before text 0 = false := by
  simp [isWholeWordAt, lastOr_nil, inWord]

theorem occurrences_cons (c : Char) (rest : Text) :
    occurrences word before (c :: rest) =
      (if isWholeWordAt word before (c :: rest) 0 then 1 else 0) +
        occurrences word (some c) rest := by
  rw [occurrences, List.length_cons, List.range_succ_eq_map, List.countP_cons, List.countP_map,
    Nat.add_comm]
  congr 1
  apply List.countP_congr
  intro place _
  rw [Function.comp_apply, isWholeWordAt_cons_succ]

theorem occurrences_eq_zero_iff (filled : word ≠ []) {text : Text} :
    occurrences word before text = 0 ↔ ∀ place, isWholeWordAt word before text place = false := by
  rw [occurrences, List.countP_eq_zero]
  constructor
  · intro nowhere place
    by_cases inside : place < text.length
    · simpa using nowhere place (List.mem_range.mpr inside)
    · rw [isWholeWordAt, List.drop_eq_nil_of_le (Nat.le_of_not_lt inside)]
      simp [begins, filled]
  · intro nowhere place _
    rw [nowhere place]
    exact Bool.false_ne_true

/-- Inside of a word no other word stands alone. -/
theorem occurrences_inside {part : Text} (inWord : isWordAt before = true)
    (members : ∀ c ∈ part, isWord c = true) (rest : Text) :
    occurrences word before (part ++ rest) = occurrences word (lastOr before part) rest := by
  induction part generalizing before with
  | nil => rfl
  | cons c part inductionHypothesis =>
      have here : isWordAt (some c) = true := members c (by simp)
      have later := inductionHypothesis here fun d member => members d (by simp [member])
      rw [List.cons_append, occurrences_cons, isWholeWordAt_of_isWordAt inWord, later, lastOr_cons]
      simp

theorem takeWhile_isWord_eq_nil {text : Text} :
    text.takeWhile isWord = [] ↔ isWordAt text.head? = false := by
  cases text with
  | nil => simp [isWordAt]
  | cons c rest => simp [List.takeWhile_cons, isWordAt]

theorem isWordAt_head?_dropWhile (text : Text) :
    isWordAt (text.dropWhile isWord).head? = false := by
  have stops := List.head?_dropWhile_not isWord text
  cases first : (text.dropWhile isWord).head? with
  | none => rfl
  | some c =>
      rw [first] at stops
      exact stops

/-- A word stands alone at the beginning of a text if the text goes on with no other word. -/
theorem isWholeWordAt_zero_iff_takeWhile (members : ∀ c ∈ word, isWord c = true) {text : Text} :
    isWholeWordAt word before text 0 = true ↔
      isWordAt before = false ∧ text.takeWhile isWord = word := by
  rw [isWholeWordAt_zero_iff]
  constructor
  · rintro ⟨rest, rfl, outside, ends⟩
    refine ⟨outside, ?_⟩
    rw [List.takeWhile_append_of_pos members, takeWhile_isWord_eq_nil.mpr ends, List.append_nil]
  · rintro ⟨outside, whole⟩
    refine ⟨text.dropWhile isWord, ?_, outside, isWordAt_head?_dropWhile text⟩
    conv_lhs => rw [← List.takeWhile_append_dropWhile (p := isWord) (l := text), whole]

/-- A word stands alone at a place if no word character stands on either side of it. -/
theorem isWholeWordAt_iff (filled : word ≠ []) {text : Text} {place : Nat} :
    isWholeWordAt word before text place = true ↔
      ∃ front rest, text = front ++ (word ++ rest) ∧ front.length = place ∧
        isWordAt (lastOr before front) = false ∧ isWordAt rest.head? = false := by
  induction place generalizing before text with
  | zero =>
      rw [isWholeWordAt_zero_iff]
      constructor
      · rintro ⟨rest, rfl, outside, ends⟩
        exact ⟨[], rest, rfl, rfl, outside, ends⟩
      · rintro ⟨front, rest, rfl, empty, outside, ends⟩
        rw [List.length_eq_zero_iff] at empty
        subst empty
        exact ⟨rest, rfl, outside, ends⟩
  | succ place inductionHypothesis =>
      cases text with
      | nil => simp [isWholeWordAt, begins, filled]
      | cons c text =>
          rw [isWholeWordAt_cons_succ, inductionHypothesis]
          constructor
          · rintro ⟨front, rest, rfl, length, outside, ends⟩
            exact ⟨c :: front, rest, rfl, by simp [length], by rwa [lastOr_cons], ends⟩
          · rintro ⟨front, rest, whole, length, outside, ends⟩
            obtain ⟨d, front, rfl⟩ := List.exists_cons_of_length_eq_add_one length
            obtain ⟨rfl, tail⟩ := List.cons.inj whole
            rw [lastOr_cons] at outside
            exact ⟨front, rest, tail, by simpa using length, outside, ends⟩

theorem isWholeWordAt_append_add (front text : Text) (place : Nat) :
    isWholeWordAt word before (front ++ text) (front.length + place) =
      isWholeWordAt word (lastOr before front) text place := by
  induction front generalizing before with
  | nil => rw [List.nil_append, List.length_nil, Nat.zero_add, lastOr_nil]
  | cons c front inductionHypothesis =>
      rw [List.cons_append, List.length_cons, Nat.add_right_comm, isWholeWordAt_cons_succ,
        inductionHypothesis, lastOr_cons]

/-- Of the character before a text only its class matters. -/
theorem isWholeWordAt_congr {other : Option Char} (same : isWordAt before = isWordAt other)
    (text : Text) (place : Nat) :
    isWholeWordAt word before text place = isWholeWordAt word other text place := by
  have front : isWordAt (lastOr before (text.take place)) =
      isWordAt (lastOr other (text.take place)) := by
    by_cases empty : text.take place = []
    · rw [empty, lastOr_nil, lastOr_nil, same]
    · rw [lastOr_of_ne_nil empty before other]
  rw [isWholeWordAt, isWholeWordAt, front]

/-- Where a word stands, the text has its characters. -/
theorem getElem?_of_isWholeWordAt (filled : word ≠ []) {text : Text} {place index : Nat}
    (alone : isWholeWordAt word before text place = true) (inside : index < word.length) :
    text[place + index]? = word[index]? := by
  obtain ⟨front, rest, rfl, rfl, -⟩ := (isWholeWordAt_iff filled).mp alone
  rw [List.getElem?_append_right (Nat.le_add_right _ _), Nat.add_sub_cancel_left,
    List.getElem?_append_left inside]

/-! ### The search for a whole word -/

section Search

variable (filled : word ≠ []) (members : ∀ c ∈ word, isWord c = true)

include filled members

theorem isWordAt_lastOr (before : Option Char) : isWordAt (lastOr before word) = true := by
  rw [lastOr, List.getLast?_eq_some_getLast filled]
  exact members _ (List.getLast_mem filled)

theorem isWordAt_head?_append (rest : Text) : isWordAt (word ++ rest).head? = true := by
  obtain ⟨c, part, rfl⟩ := List.exists_cons_of_ne_nil filled
  exact members c (by simp)

/-- A search matches where the word stands alone. -/
theorem wholeWord_eq (before : Option Char) (text : Text) :
    Pattern.wholeWord word before text =
      if isWholeWordAt word before text 0 then some word.length else none := by
  have last := isWordAt_lastOr filled members before
  have first := isWordAt_head?_append filled members
  split
  · rename_i alone
    obtain ⟨rest, rfl, outside, ends⟩ := isWholeWordAt_zero_iff.mp alone
    apply Pattern.wholeWord_append
    · rw [isBoundary, outside, first]
      rfl
    · rw [isBoundary, last, ends]
      rfl
  · rename_i other
    cases found : Pattern.wholeWord word before text with
    | none => rfl
    | some size =>
        obtain ⟨rest, rfl, -, starts, ends⟩ := Pattern.wholeWord_eq_some found
        have outside : isWordAt before = false := by
          rw [isBoundary, first] at starts
          simpa using starts
        have alone := isWordAt_of_isBoundary last ends
        exact absurd (isWholeWordAt_zero_iff.mpr ⟨rest, rfl, outside, alone⟩) other

/-- Behind the first character of a word that stands alone no word stands alone, up to its end. -/
theorem isWholeWordAt_inside {text : Text} (alone : isWholeWordAt word before text 0 = true)
    {place : Nat} (behind : 0 < place) (inside : place < word.length) :
    isWholeWordAt word before text place = false := by
  obtain ⟨rest, rfl, -, -⟩ := isWholeWordAt_zero_iff.mp alone
  have taken : (word ++ rest).take place = word.take place :=
    List.take_append_of_le_length (Nat.le_of_lt inside)
  have begun : word.take place ≠ [] := by
    rw [ne_eq, List.take_eq_nil_iff, not_or]
    exact ⟨Nat.ne_of_gt behind, filled⟩
  have inWord := isWordAt_lastOr begun
    (fun c member => members c (List.mem_of_mem_take member)) before
  rw [isWholeWordAt, taken, inWord]
  simp

/-- The characters that are skipped begin no word that stands alone. -/
theorem countFrom_wholeWord (skip : Nat) (before : Option Char) (text : Text)
    (skipped : ∀ place < skip, isWholeWordAt word before text place = false) :
    Pattern.countFrom (Pattern.wholeWord word) skip before text = occurrences word before text := by
  have positive : 0 < word.length := List.length_pos_iff.mpr filled
  induction text generalizing skip before with
  | nil =>
      have nowhere : isWholeWordAt word before [] 0 = false := by
        rw [Bool.eq_false_iff]
        intro alone
        obtain ⟨rest, whole, -⟩ := isWholeWordAt_zero_iff.mp alone
        exact filled (List.append_eq_nil_iff.mp whole.symm).1
      rw [Pattern.countFrom, wholeWord_eq filled members, nowhere]
      rfl
  | cons c rest inductionHypothesis =>
      cases skip with
      | succ skip =>
          have later := inductionHypothesis skip (some c) fun place inside => by
            rw [← @isWholeWordAt_cons_succ word before]
            exact skipped (place + 1) (Nat.succ_lt_succ inside)
          rw [Pattern.countFrom, later, occurrences_cons, skipped 0 (Nat.succ_pos skip)]
          simp
      | zero =>
          rw [Pattern.countFrom, wholeWord_eq filled members, occurrences_cons]
          cases alone : isWholeWordAt word before (c :: rest) 0 with
          | false =>
              have later := inductionHypothesis 0 (some c) (by simp)
              simpa using later
          | true =>
              obtain ⟨size, length⟩ := Nat.exists_eq_add_of_lt positive
              rw [Nat.zero_add] at length
              have later := inductionHypothesis size (some c) fun place inside => by
                rw [← @isWholeWordAt_cons_succ word before]
                exact isWholeWordAt_inside filled members alone (Nat.succ_pos place) (by omega)
              simp [length, later]

theorem occurrences_append {rest : Text}
    (alone : isWholeWordAt word before (word ++ rest) 0 = true) :
    occurrences word before (word ++ rest) = occurrences word (lastOr before word) rest + 1 := by
  obtain ⟨c, part, split⟩ := List.exists_cons_of_ne_nil filled
  have inside := @occurrences_inside word (some c) part (members c (by simp [split]))
    (fun d member => members d (by simp [split, member])) rest
  have shape : word ++ rest = c :: (part ++ rest) := by rw [split, List.cons_append]
  rw [shape] at alone ⊢
  rw [occurrences_cons, alone, inside, Nat.add_comm, ← lastOr_cons before, ← split]
  rfl

/-- A search counts all places where the word stands alone. -/
theorem count_wholeWord (text : Text) :
    (Pattern.wholeWord word).count text = occurrences word none text :=
  countFrom_wholeWord filled members 0 none text (by simp)

end Search

/-! ### Replacement of a whole word -/

/-- What a text becomes when a word is replaced in it, given the character before it. Inside of a
word the text goes on with the same characters up to the end of the word. -/
structure Rewords (word replacement : Text) (before : Option Char) (old new : Text) : Prop where
  pieces : ∃ first others, old = join word (first :: others) ∧
    new = join replacement (first :: others) ∧ others.length = occurrences word before old
  gone : ∀ place, isWholeWordAt word before new place = false
  inside : isWordAt before = true → new.takeWhile isWord = old.takeWhile isWord

theorem join_cons_cons (separator : Text) (c : Char) (first : Text) (others : List Text) :
    join separator ((c :: first) :: others) = c :: join separator (first :: others) := by
  cases others <;> rfl

theorem join_nil_cons (separator first : Text) (others : List Text) :
    join separator ([] :: first :: others) = separator ++ join separator (first :: others) := rfl

section Replacement

variable {replacement : Text} (filled : word ≠ []) (members : ∀ c ∈ word, isWord c = true)

include filled members

theorem Rewords.cons {c : Char} {rest new : Text}
    (rewords : Rewords word replacement (some c) rest new)
    (kept : isWholeWordAt word before (c :: rest) 0 = false) :
    Rewords word replacement before (c :: rest) (c :: new) where
  pieces := by
    obtain ⟨first, others, old, changed, count⟩ := rewords.pieces
    refine ⟨c :: first, others, ?_, ?_, ?_⟩
    · rw [join_cons_cons, ← old]
    · rw [join_cons_cons, ← changed]
    · rw [count, occurrences_cons, kept]
      simp
  gone := by
    intro place
    cases place with
    | succ place =>
        rw [isWholeWordAt_cons_succ]
        exact rewords.gone place
    | zero =>
        rw [Bool.eq_false_iff] at kept ⊢
        intro alone
        apply kept
        rw [isWholeWordAt_zero_iff_takeWhile members] at alone ⊢
        refine ⟨alone.1, ?_⟩
        -- The word begins with the character that was kept, so it goes on as in the old text.
        have inWord : isWord c = true := by
          by_contra other
          rw [List.takeWhile_cons_of_neg other] at alone
          exact filled alone.2.symm
        rw [← alone.2, List.takeWhile_cons_of_pos inWord, List.takeWhile_cons_of_pos inWord,
          rewords.inside inWord]
  inside := by
    intro _
    by_cases inWord : isWord c = true
    · rw [List.takeWhile_cons_of_pos inWord, List.takeWhile_cons_of_pos inWord,
        rewords.inside inWord]
    · rw [List.takeWhile_cons_of_neg inWord, List.takeWhile_cons_of_neg inWord]

/-- Between two texts that do not continue its words, a replacement brings in no whole word. -/
theorem isWholeWordAt_append {new : Text} {place : Nat}
    (free : ∀ place, isWholeWordAt word none replacement place = false)
    (apart : isWordAt new.head? = false)
    (gone : ∀ place other, 0 < place → isWholeWordAt word other new place = false) :
    isWholeWordAt word before (replacement ++ new) place = false := by
  rw [Bool.eq_false_iff]
  intro alone
  obtain ⟨front, rest, whole, -, starts, ends⟩ := (isWholeWordAt_iff filled).mp alone
  have nowhere (tail : Text) (begun : new = word ++ tail) : False := by
    rw [begun, isWordAt_head?_append filled members] at apart
    exact absurd apart (by decide)
  rcases List.append_eq_append_iff.mp whole with ⟨middle, rfl, behind⟩ | ⟨middle, inside, split⟩
  · -- The word lies behind the replacement.
    by_cases none : middle = []
    · rw [none, List.nil_append] at behind
      exact nowhere rest behind
    · rw [Pattern.lastOr_append] at starts
      have found := (isWholeWordAt_iff filled).mpr ⟨middle, rest, behind, rfl, starts, ends⟩
      rw [gone middle.length _ (List.length_pos_iff.mpr none)] at found
      exact absurd found (by decide)
  · -- The word begins in the replacement, and it cannot go on behind it.
    obtain ⟨last, rfl, same⟩ : ∃ last, middle = word ++ last ∧ rest = last ++ new := by
      rcases List.append_eq_append_iff.mp split with ⟨last, whole, same⟩ | ⟨last, whole, same⟩
      · exact ⟨last, whole, same⟩
      · by_cases none : last = []
        · rw [none, List.append_nil] at whole
          rw [none, List.nil_append] at same
          exact ⟨[], by rw [whole, List.append_nil], same.symm⟩
        · have part := isWordAt_head?_append none
            (fun c member => members c (by simp [whole, member])) rest
          rw [← same, apart] at part
          exact absurd part (by decide)
    have startsToo : isWordAt (lastOr none front) = false := by
      cases front with
      | nil => rfl
      | cons c front => rwa [lastOr_of_ne_nil (List.cons_ne_nil c front) none before]
    have endsToo : isWordAt last.head? = false := by
      cases last with
      | nil => rfl
      | cons c last => rwa [same] at ends
    have found := (isWholeWordAt_iff filled).mpr ⟨front, last, inside, rfl, startsToo, endsToo⟩
    rw [free front.length] at found
    exact absurd found (by decide)

theorem Rewords.append {rest new : Text}
    (rewords : Rewords word replacement (lastOr before word) rest new)
    (alone : isWholeWordAt word before (word ++ rest) 0 = true)
    (free : ∀ place, isWholeWordAt word none replacement place = false) :
    Rewords word replacement before (word ++ rest) (replacement ++ new) := by
  obtain ⟨tail, whole, outside, ends⟩ := isWholeWordAt_zero_iff.mp alone
  obtain rfl := List.append_cancel_left whole
  have apart : new.takeWhile isWord = [] := by
    rw [rewords.inside (isWordAt_lastOr filled members before), takeWhile_isWord_eq_nil.mpr ends]
  constructor
  · obtain ⟨first, others, old, changed, count⟩ := rewords.pieces
    refine ⟨[], first :: others, ?_, ?_, ?_⟩
    · rw [join_nil_cons, ← old]
    · rw [join_nil_cons, ← changed]
    · rw [List.length_cons, count, occurrences_append filled members alone]
  · intro place
    apply isWholeWordAt_append filled members free
    · exact takeWhile_isWord_eq_nil.mp apart
    · intro place other behind
      cases new with
      | nil =>
          obtain ⟨place, rfl⟩ := Nat.exists_eq_succ_of_ne_zero (Nat.ne_of_gt behind)
          simp [isWholeWordAt, begins, filled]
      | cons c new =>
          obtain ⟨place, rfl⟩ := Nat.exists_eq_succ_of_ne_zero (Nat.ne_of_gt behind)
          have later := rewords.gone (place + 1)
          rw [isWholeWordAt_cons_succ] at later
          rw [isWholeWordAt_cons_succ, later]
  · intro inWord
    rw [outside] at inWord
    exact absurd inWord (by decide)

/-- If the replacement does not hold the word, the word stands alone nowhere once it is replaced
everywhere. -/
theorem isReplaced_replaceAll (free : occurrences word none replacement = 0) (text : Text) :
    IsReplaced word replacement text
      ((Pattern.wholeWord word).replaceAll (fun _ => replacement) text) := by
  have positive : 0 < word.length := List.length_pos_iff.mpr filled
  have nowhere := (occurrences_eq_zero_iff filled).mp free
  have rewords : Rewords word replacement none text
      ((Pattern.wholeWord word).replaceAll (fun _ => replacement) text) := by
    apply Pattern.replaceFrom_induction
    · intro before
      refine ⟨⟨[], [], rfl, rfl, rfl⟩, fun place => ?_, fun _ => rfl⟩
      simp [isWholeWordAt, begins, filled]
    · intro before c rest new kept rewords
      apply rewords.cons filled members
      rw [Bool.eq_false_iff]
      intro alone
      apply kept (word.length - 1)
      rw [wholeWord_eq filled members, if_pos alone, Nat.sub_add_cancel positive]
    · intro before text size new found rewords
      rw [wholeWord_eq filled members] at found
      split at found
      · rename_i alone
        obtain ⟨rest, rfl, -, -⟩ := isWholeWordAt_zero_iff.mp alone
        rw [← Option.some.inj found, List.take_left, List.drop_left] at rewords
        exact rewords.append filled members alone nowhere
      · exact absurd found (by simp)
  obtain ⟨first, others, old, changed, count⟩ := rewords.pieces
  exact ⟨⟨first :: others, old, changed, by rw [List.length_cons, count]⟩,
    (occurrences_eq_zero_iff filled).mpr rewords.gone⟩

end Replacement

end Unpacking.Text
