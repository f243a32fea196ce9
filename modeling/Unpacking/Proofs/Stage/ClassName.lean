import Unpacking.Proofs.Text.WholeWord
import Unpacking.Stage.EntryPoint

/-!
Renaming of a class, word by word. A text is made of words and of characters between them, and
renaming puts one word in the place of another. So the words of the new text lie where those of the
old text lay, and a name that was not in use leads back to the old text. Main statement:
`renameClass_of_fresh`.
-/

namespace Unpacking.Text

/-- A text is empty, begins with a character between words, or begins with a whole word. -/
theorem wordwise {motive : Text → Prop} (empty : motive [])
    (between : ∀ c rest, isWord c = false → motive rest → motive (c :: rest))
    (whole : ∀ part rest, part ≠ [] → (∀ c ∈ part, isWord c = true) →
      isWordAt rest.head? = false → motive rest → motive (part ++ rest))
    (text : Text) : motive text := by
  -- A word is taken off as a whole, so the induction is on the length.
  induction length : text.length using Nat.strongRecOn generalizing text with
  | ind size inductionHypothesis =>
      cases text with
      | nil => exact empty
      | cons c rest =>
          rw [List.length_cons] at length
          by_cases inWord : isWord c = true
          · have shorter := List.length_dropWhile_le isWord rest
            have begun : (c :: rest).takeWhile isWord ≠ [] := by
              simp [List.takeWhile_cons_of_pos inWord]
            have behind : (c :: rest).dropWhile isWord = rest.dropWhile isWord :=
              List.dropWhile_cons_of_pos inWord
            rw [← List.takeWhile_append_dropWhile (p := isWord) (l := c :: rest)]
            refine whole _ _ begun (fun _ => List.mem_takeWhile_imp)
              (isWordAt_head?_dropWhile (c :: rest)) (inductionHypothesis _ ?_ _ rfl)
            rw [behind]
            omega
          · exact between c rest (by simpa using inWord)
              (inductionHypothesis _ (by omega) rest rfl)

section Words

variable {word : Text} (filled : word ≠ []) (members : ∀ c ∈ word, isWord c = true)
  {before : Option Char} {c : Char} {part rest text : Text} {replacement : Text → Text}

include filled members

theorem isWholeWordAt_between (outside : isWordAt text.head? = false) (before : Option Char) :
    isWholeWordAt word before text 0 = false := by
  rw [Bool.eq_false_iff]
  intro alone
  obtain ⟨rest, rfl, -⟩ := isWholeWordAt_zero_iff.mp alone
  rw [isWordAt_head?_append filled members] at outside
  exact absurd outside (by decide)

/-! ### Counting word by word -/

omit filled members in
theorem occurrences_congr {other : Option Char} (same : isWordAt before = isWordAt other)
    (text : Text) : occurrences word before text = occurrences word other text := by
  refine List.countP_congr fun place _ => ?_
  rw [isWholeWordAt_congr same]

theorem occurrences_between (outside : isWord c = false) (before : Option Char) (rest : Text) :
    occurrences word before (c :: rest) = occurrences word none rest := by
  have apart : isWordAt (c :: rest).head? = false := outside
  have same : isWordAt (some c) = isWordAt none := outside
  rw [occurrences_cons, isWholeWordAt_between filled members apart, occurrences_congr same]
  simp

/-- The character before a text matters only if a word begins with the text. -/
theorem occurrences_of_outside (outside : isWordAt text.head? = false) (before : Option Char) :
    occurrences word before text = occurrences word none text := by
  cases text with
  | nil => rfl
  | cons c rest =>
      rw [occurrences_between filled members outside, occurrences_between filled members outside]

theorem occurrences_whole (begun : part ≠ []) (letters : ∀ c ∈ part, isWord c = true)
    (ends : isWordAt rest.head? = false) :
    occurrences word none (part ++ rest) =
      (if part = word then 1 else 0) + occurrences word none rest := by
  have first : isWholeWordAt word none (part ++ rest) 0 = true ↔ part = word := by
    rw [isWholeWordAt_zero_iff_takeWhile members, List.takeWhile_append_of_pos letters,
      takeWhile_isWord_eq_nil.mpr ends, List.append_nil]
    exact and_iff_right rfl
  obtain ⟨c, part, rfl⟩ := List.exists_cons_of_ne_nil begun
  have inWord : isWordAt (some c) = true := letters c List.mem_cons_self
  have inside := @occurrences_inside word (some c) part inWord
    (fun d member => letters d (List.mem_cons_of_mem c member)) rest
  rw [List.cons_append] at first ⊢
  rw [occurrences_cons, inside, occurrences_of_outside filled members ends]
  simp only [first]

/-! ### Replacing word by word -/

theorem replaceFrom_congr {other : Option Char} (same : isWordAt before = isWordAt other)
    (text : Text) :
    Pattern.replaceFrom (Pattern.wholeWord word) replacement 0 before text =
      Pattern.replaceFrom (Pattern.wholeWord word) replacement 0 other text := by
  have found : Pattern.wholeWord word before text = Pattern.wholeWord word other text := by
    rw [wholeWord_eq filled members, wholeWord_eq filled members, isWholeWordAt_congr same]
  cases text with
  | nil => rw [Pattern.replaceFrom, Pattern.replaceFrom, found]
  | cons c rest => rw [Pattern.replaceFrom, Pattern.replaceFrom, found]

theorem wholeWord_between (outside : isWordAt text.head? = false) (before : Option Char) :
    Pattern.wholeWord word before text = none := by
  rw [wholeWord_eq filled members, isWholeWordAt_between filled members outside]
  rfl

theorem replaceFrom_between (outside : isWord c = false) (before : Option Char) (rest : Text) :
    Pattern.replaceFrom (Pattern.wholeWord word) replacement 0 before (c :: rest) =
      c :: (Pattern.wholeWord word).replaceAll replacement rest := by
  have apart : isWordAt (c :: rest).head? = false := outside
  have same : isWordAt (some c) = isWordAt none := outside
  rw [Pattern.replaceFrom_none (wholeWord_between filled members apart before),
    replaceFrom_congr filled members same]
  rfl

theorem replaceFrom_of_outside (outside : isWordAt text.head? = false) (before : Option Char) :
    Pattern.replaceFrom (Pattern.wholeWord word) replacement 0 before text =
      (Pattern.wholeWord word).replaceAll replacement text := by
  cases text with
  | nil =>
      have nothing (before : Option Char) :
          Pattern.replaceFrom (Pattern.wholeWord word) replacement 0 before [] = [] := by
        rw [Pattern.replaceFrom, wholeWord_between filled members outside]
      exact (nothing before).trans (nothing none).symm
  | cons c rest =>
      rw [Pattern.replaceAll, replaceFrom_between filled members outside,
        replaceFrom_between filled members outside]

/-- A whole word is replaced if it is the word that is searched, and kept otherwise. -/
theorem replaceAll_whole (begun : part ≠ []) (letters : ∀ c ∈ part, isWord c = true)
    (ends : isWordAt rest.head? = false) :
    (Pattern.wholeWord word).replaceAll replacement (part ++ rest) =
      (if part = word then replacement part else part) ++
        (Pattern.wholeWord word).replaceAll replacement rest := by
  rw [Pattern.replaceAll, ← replaceFrom_of_outside filled members ends (lastOr none part)]
  split
  · rename_i same
    subst same
    have alone : isWholeWordAt part none (part ++ rest) 0 = true :=
      isWholeWordAt_zero_iff.mpr ⟨rest, rfl, rfl, ends⟩
    refine Pattern.replaceFrom_matched begun ?_
    rw [wholeWord_eq filled members, if_pos alone]
  · -- The word is another one at its start, and behind its start no word begins.
    rename_i other
    refine Pattern.replaceFrom_keep fun left right split filledRight => ?_
    have kept : isWholeWordAt word (lastOr none left) (right ++ rest) 0 = false := by
      by_cases atStart : left = []
      · rw [Bool.eq_false_iff, ne_eq, isWholeWordAt_zero_iff_takeWhile members]
        rintro ⟨-, same⟩
        rw [atStart, List.nil_append] at split
        rw [← split, List.takeWhile_append_of_pos letters, takeWhile_isWord_eq_nil.mpr ends,
          List.append_nil] at same
        exact other same
      · refine isWholeWordAt_of_isWordAt (isWordAt_lastOr atStart (fun c member => ?_) none) _
        exact letters c (split ▸ List.mem_append_left right member)
    rw [wholeWord_eq filled members, kept]
    rfl

end Words

end Unpacking.Text

namespace Unpacking.Stage

open Text

section Renaming

variable {old new : Text} (oldFilled : old ≠ []) (oldMembers : ∀ c ∈ old, isWord c = true)
include oldFilled oldMembers

theorem renameClass_nil (new : Text) : renameClass old new [] = [] := by
  rw [renameClass, Pattern.replaceAll, Pattern.replaceFrom,
    wholeWord_between oldFilled oldMembers rfl]

theorem renameClass_between {c : Char} (outside : isWord c = false) (new rest : Text) :
    renameClass old new (c :: rest) = c :: renameClass old new rest := by
  rw [renameClass, Pattern.replaceAll, replaceFrom_between oldFilled oldMembers outside]
  rfl

theorem renameClass_whole {part rest : Text} (begun : part ≠ [])
    (letters : ∀ c ∈ part, isWord c = true) (ends : isWordAt rest.head? = false) (new : Text) :
    renameClass old new (part ++ rest) =
      (if part = old then new else part) ++ renameClass old new rest :=
  replaceAll_whole oldFilled oldMembers begun letters ends

/-- Words begin in the new text where they began in the old one. -/
theorem isWordAt_head?_renameClass (newFilled : new ≠ []) (newMembers : ∀ c ∈ new, isWord c = true)
    (text : Text) : isWordAt (renameClass old new text).head? = isWordAt text.head? := by
  induction text using wordwise with
  | empty => rw [renameClass_nil oldFilled oldMembers]
  | between c rest outside _ =>
      rw [renameClass_between oldFilled oldMembers outside]
      rfl
  | whole part rest begun letters ends _ =>
      rw [renameClass_whole oldFilled oldMembers begun letters ends,
        isWordAt_head?_append begun letters]
      split
      · exact isWordAt_head?_append newFilled newMembers _
      · exact isWordAt_head?_append begun letters _

end Renaming

/-- Renaming a class to a name that is not in use replaces every use of the old name, and renaming
it back gives the text again. -/
theorem renameClass_of_fresh {old new text : Text} (oldFilled : old ≠ [])
    (oldMembers : ∀ c ∈ old, isWord c = true) (newFilled : new ≠ [])
    (newMembers : ∀ c ∈ new, isWord c = true) (different : old ≠ new)
    (fresh : occurrences new none text = 0) :
    occurrences old none (renameClass old new text) = 0 ∧
      occurrences new none (renameClass old new text) = occurrences old none text ∧
      renameClass new old (renameClass old new text) = text := by
  induction text using wordwise with
  | empty =>
      rw [renameClass_nil oldFilled oldMembers, renameClass_nil newFilled newMembers]
      exact ⟨rfl, rfl, rfl⟩
  | between c rest outside inductionHypothesis =>
      rw [occurrences_between newFilled newMembers outside] at fresh
      obtain ⟨gone, count, restored⟩ := inductionHypothesis fresh
      rw [renameClass_between oldFilled oldMembers outside,
        occurrences_between oldFilled oldMembers outside,
        occurrences_between newFilled newMembers outside,
        occurrences_between oldFilled oldMembers outside,
        renameClass_between newFilled newMembers outside, restored]
      exact ⟨gone, count, rfl⟩
  | whole part rest begun letters ends inductionHypothesis =>
      rw [occurrences_whole newFilled newMembers begun letters ends, Nat.add_eq_zero_iff] at fresh
      obtain ⟨unused, freshRest⟩ := fresh
      have other : part ≠ new := by
        rintro rfl
        simp at unused
      obtain ⟨gone, count, restored⟩ := inductionHypothesis freshRest
      -- The renamed rest begins outside of words, so the words before it stay apart from it.
      have endsToo : isWordAt (renameClass old new rest).head? = false := by
        rw [isWordAt_head?_renameClass oldFilled oldMembers newFilled newMembers, ends]
      rw [renameClass_whole oldFilled oldMembers begun letters ends]
      by_cases renamed : part = old
      · subst renamed
        rw [if_pos rfl, occurrences_whole oldFilled oldMembers newFilled newMembers endsToo,
          occurrences_whole newFilled newMembers newFilled newMembers endsToo,
          occurrences_whole oldFilled oldMembers begun letters ends,
          renameClass_whole newFilled newMembers newFilled newMembers endsToo, gone, count, restored,
          if_neg (Ne.symm different), if_pos rfl, if_pos rfl, if_pos rfl]
        exact ⟨rfl, rfl, rfl⟩
      · rw [if_neg renamed, occurrences_whole oldFilled oldMembers begun letters endsToo,
          occurrences_whole newFilled newMembers begun letters endsToo,
          occurrences_whole oldFilled oldMembers begun letters ends,
          renameClass_whole newFilled newMembers begun letters endsToo, gone, count, restored,
          if_neg renamed, if_neg other, if_neg other]
        exact ⟨rfl, rfl, rfl⟩

/-- Uses of a name side by side and next to a dollar sign, and two longer names. -/
def crowdedUses : Text :=
  "App.App$App AppX éApp"

theorem renameClass_of_fresh_crowded :
    occurrences "App" none crowdedUses = 3 ∧ occurrences "Main_1" none crowdedUses = 0 ∧
      occurrences "App" none (renameClass "App" "Main_1" crowdedUses) = 0 ∧
      occurrences "Main_1" none (renameClass "App" "Main_1" crowdedUses) =
        occurrences "App" none crowdedUses ∧
      renameClass "Main_1" "App" (renameClass "App" "Main_1" crowdedUses) = crowdedUses := by
  have uses : occurrences "App" none crowdedUses = 3 := by decide +kernel
  have fresh : occurrences "Main_1" none crowdedUses = 0 := by decide +kernel
  refine ⟨uses, fresh, ?_⟩
  exact renameClass_of_fresh (by decide) (List.all_eq_true.mp (by decide +kernel)) (by decide)
    (List.all_eq_true.mp (by decide +kernel)) (by decide) fresh

end Unpacking.Stage
