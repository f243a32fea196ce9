import Mathlib.Data.List.Perm.Basic
import Unpacking.Analysis.Run
import Unpacking.Proofs.Renaming.Qualified
import Unpacking.Proofs.Text.WholeWord

/-!
The order in which the members of a class are visited. Renaming the uses of one member can give a
use of another one, and then the order decides which name remains. Main statement: `renameAll_order`
says that the order leaves no trace where no new name is an old name.
-/

namespace Unpacking.Renaming

open Text Pattern

/-! ### Texts cut into words -/

/-- Words with the separators before them. A word may be empty. -/
abbrev Words := List (Char × Text)

namespace Words

/-- The text of some words. -/
def text (words : Words) : Text :=
  words.flatMap fun next => next.1 :: next.2

/-- Every word ends where a separator stands. -/
def AreWhole (words : Words) : Prop :=
  ∀ next ∈ words, isWord next.1 = false ∧ ∀ c ∈ next.2, isWord c = true

theorem isWordAt_head?_text {words : Words} (whole : words.AreWhole) :
    isWordAt words.text.head? = false := by
  cases words with
  | nil => rfl
  | cons next words => exact (whole next List.mem_cons_self).1

end Words

/-- Every text can be cut into words. -/
theorem exists_words (text : Text) : ∃ (word : Text) (words : Words),
    (∀ c ∈ word, isWord c = true) ∧ words.AreWhole ∧ text = word ++ words.text := by
  induction text with
  | nil => exact ⟨[], [], by simp, by simp [Words.AreWhole], rfl⟩
  | cons c text inductionHypothesis =>
      obtain ⟨word, words, letters, whole, rfl⟩ := inductionHypothesis
      by_cases inWord : isWord c = true
      · exact ⟨c :: word, words, List.forall_mem_cons.mpr ⟨inWord, letters⟩, whole, rfl⟩
      · refine ⟨[], (c, word) :: words, by simp, ?_, rfl⟩
        exact List.forall_mem_cons.mpr ⟨⟨Bool.eq_false_iff.mpr inWord, letters⟩, whole⟩

/-- A text begins with one word only. -/
theorem word_eq_of_outside {word other rest after : Text} (letters : ∀ c ∈ word, isWord c = true)
    (otherLetters : ∀ c ∈ other, isWord c = true) (ends : isWordAt rest.head? = false)
    (otherEnds : isWordAt after.head? = false) (whole : word ++ rest = other ++ after) :
    word = other ∧ rest = after := by
  have same := congrArg (List.takeWhile isWord) whole
  rw [List.takeWhile_append_of_pos letters, List.takeWhile_append_of_pos otherLetters,
    takeWhile_isWord_eq_nil.mpr ends, takeWhile_isWord_eq_nil.mpr otherEnds, List.append_nil,
    List.append_nil] at same
  subst same
  exact ⟨rfl, List.append_cancel_left whole⟩

/-! ### One member -/

/-- Words in which one member has a new name behind the name of its class. The word before them is
given. -/
def followWords (className member new : Text) : Text → Words → Words
  | _, [] => []
  | word, (c, next) :: words =>
    (c, if word = className ∧ c = '.' ∧ next = member then new else next) ::
      followWords className member new next words

theorem areWhole_followWords {className member new word : Text} {words : Words}
    (isNew : IsPlain new) (whole : words.AreWhole) :
    (followWords className member new word words).AreWhole := by
  induction words generalizing word with
  | nil => exact whole
  | cons next words inductionHypothesis =>
      obtain ⟨⟨outside, letters⟩, later⟩ := List.forall_mem_cons.mp whole
      refine List.forall_mem_cons.mpr ⟨⟨outside, ?_⟩, inductionHypothesis later⟩
      dsimp only
      split
      · exact isNew.plain
      · exact letters

section Follow

variable {className member new word rest : Text} {start : Option Char}
  (isClass : IsPlain className) (isMember : IsPlain member)

include isClass isMember

/-- A match that begins with a word is a use of the member. -/
theorem exists_of_wholeWord {size : Nat} (letters : ∀ c ∈ word, isWord c = true)
    (ends : isWordAt rest.head? = false)
    (found : wholeWord (path className member) start (word ++ rest) = some size) :
    word = className ∧ ∃ after, rest = '.' :: (member ++ after) ∧
      isWordAt after.head? = false := by
  obtain ⟨after, parts, -, -, boundary⟩ := wholeWord_eq_some found
  rw [path_append] at parts
  have dot : isWordAt ('.' :: (member ++ after)).head? = false := rfl
  obtain ⟨same, rfl⟩ := word_eq_of_outside letters isClass.plain ends dot parts
  rw [path, lastOr_append, lastOr_cons] at boundary
  exact ⟨same, after, rfl, isWordAt_of_isBoundary (isMember.isWordAt_lastOr _) boundary⟩

/-- A word stays if it is not the class of a use. -/
theorem follow_word (letters : ∀ c ∈ word, isWord c = true) (ends : isWordAt rest.head? = false)
    (different : word = className → ∀ after, rest = '.' :: (member ++ after) →
      isWordAt after.head? = true) :
    follow className member new start (word ++ rest) =
      word ++ follow className member new (lastOr start word) rest := by
  refine follow_keep fun front back split filled => ?_
  by_cases atStart : front = []
  · subst atStart
    rw [List.nil_append] at split
    subst split
    cases found : wholeWord (path className member) (lastOr start []) (word ++ rest) with
    | none => rfl
    | some size =>
        obtain ⟨same, after, whole, outside⟩ := exists_of_wholeWord isClass isMember letters ends
          found
        rw [different same after whole] at outside
        exact absurd outside (by decide)
  · exact wholeWord_inside ⟨by simp [split, atStart], letters⟩ split atStart filled start rest

/-- No match begins between words. -/
theorem wholeWord_path_outside (outside : isWordAt rest.head? = false) (start : Option Char) :
    wholeWord (path className member) start rest = none := by
  cases found : wholeWord (path className member) start rest with
  | none => rfl
  | some size =>
      rw [← List.nil_append rest] at found
      obtain ⟨same, -⟩ := exists_of_wholeWord isClass isMember (by simp) outside found
      exact absurd same.symm isClass.filled

theorem follow_separator {c : Char} (outside : isWordAt (c :: rest).head? = false)
    (start : Option Char) : follow className member new start (c :: rest) =
      c :: follow className member new (some c) rest :=
  follow_none (wholeWord_path_outside isClass isMember outside start)

theorem follow_nil (start : Option Char) : follow className member new start [] = [] := by
  rw [follow, replaceFrom, wholeWord_path_outside isClass isMember rfl]

/-- A rule looks at words only. -/
theorem follow_words (other : member ≠ className) {words : Words} (whole : words.AreWhole)
    (letters : ∀ c ∈ word, isWord c = true) (apart : isWordAt start = false) :
    follow className member new start (word ++ words.text) =
      word ++ (followWords className member new word words).text := by
  induction words generalizing word start with
  | nil =>
      rw [follow_word isClass isMember letters rfl (by simp [Words.text])]
      exact congrArg (word ++ ·) (follow_nil isClass isMember _)
  | cons next words inductionHypothesis =>
      obtain ⟨c, next⟩ := next
      obtain ⟨⟨outside, nextLetters⟩, later⟩ := List.forall_mem_cons.mp whole
      have ends := Words.isWordAt_head?_text later
      have before : isWordAt (some c) = false := outside
      have outside : isWordAt (c :: (next ++ Words.text words)).head? = false := outside
      by_cases use : word = className ∧ c = '.' ∧ next = member
      · obtain ⟨rfl, rfl, rfl⟩ := use
        -- No match begins in the member, so the rest goes on as it does behind the member.
        have goesOn := @inductionHypothesis next (some '.') later isMember.plain rfl
        rw [follow_word isClass isMember isMember.plain ends
          fun same => absurd same other] at goesOn
        have matched : wholeWord (path word next) start (path word next ++ Words.text words) =
            some (path word next).length := by
          refine wholeWord_append (isBoundary_of_ne ?_) (isBoundary_of_ne ?_)
          · rw [apart, path_append, isClass.isWordAt_head?]
            decide
          · rw [path, lastOr_append, lastOr_cons, isMember.isWordAt_lastOr, ends]
            decide
        have split : word ++ Words.text (('.', next) :: words) =
            path word next ++ Words.text words := (path_append ..).symm
        have last : lastOr start (path word next) = lastOr (some '.') next := by
          rw [path, lastOr_append, lastOr_cons]
        rw [split, follow_matched matched, last, List.append_cancel_left goesOn]
        simp [followWords, Words.text, path]
      · have different : word = className → ∀ after,
            c :: (next ++ Words.text words) = '.' :: (member ++ after) →
              isWordAt after.head? = true := by
          intro same after parts
          obtain ⟨dot, behind⟩ := List.cons.inj parts
          by_contra outsideToo
          obtain ⟨sameMember, -⟩ := word_eq_of_outside nextLetters isMember.plain ends
            (Bool.eq_false_iff.mpr outsideToo) behind
          exact use ⟨same, dot, sameMember⟩
        rw [show Words.text ((c, next) :: words) = c :: (next ++ Words.text words) from rfl,
          follow_word isClass isMember letters outside different,
          follow_separator isClass isMember outside, inductionHypothesis later nextLetters before]
        simp [followWords, Words.text, use]

end Follow

/-! ### Two members -/

section Two

variable {className left newLeft right newRight : Text}

/-- The words before are renamed as well, which makes none of them the class. -/
theorem followWords_comm (different : left ≠ right) (settledLeft : newLeft ≠ right)
    (settledRight : newRight ≠ left) (ownLeft : left ≠ className ∧ newLeft ≠ className)
    (ownRight : right ≠ className ∧ newRight ≠ className) {word wordLeft wordRight : Text}
    (sameLeft : wordLeft = className ↔ word = className)
    (sameRight : wordRight = className ↔ word = className) (words : Words) :
    followWords className right newRight wordLeft
        (followWords className left newLeft word words) =
      followWords className left newLeft wordRight
        (followWords className right newRight word words) := by
  induction words generalizing word wordLeft wordRight with
  | nil => rfl
  | cons next words inductionHypothesis =>
      obtain ⟨c, next⟩ := next
      simp only [followWords, List.cons.injEq, Prod.mk.injEq, true_and, sameLeft, sameRight]
      constructor
      · split_ifs <;> simp_all
      · apply inductionHypothesis
        · split_ifs with use
          · simp [use.2.2, ownLeft]
          · rfl
        · split_ifs with use
          · simp [use.2.2, ownRight]
          · rfl

/-- Two rules of a class can be applied in either order. -/
theorem renameQualified_comm (isClass : IsPlain className) (isLeft : IsPlain left)
    (isNewLeft : IsPlain newLeft) (isRight : IsPlain right) (isNewRight : IsPlain newRight)
    (different : left ≠ right) (settledLeft : newLeft ≠ right) (settledRight : newRight ≠ left)
    (ownLeft : left ≠ className ∧ newLeft ≠ className)
    (ownRight : right ≠ className ∧ newRight ≠ className) (text : Text) :
    renameQualified className right newRight (renameQualified className left newLeft text) =
      renameQualified className left newLeft (renameQualified className right newRight text) := by
  obtain ⟨word, words, letters, whole, rfl⟩ := exists_words text
  simp only [renameQualified_eq]
  rw [follow_words isClass isLeft ownLeft.1 whole letters rfl,
    follow_words isClass isRight ownRight.1 whole letters rfl,
    follow_words isClass isRight ownRight.1 (areWhole_followWords isNewLeft whole) letters rfl,
    follow_words isClass isLeft ownLeft.1 (areWhole_followWords isNewRight whole) letters rfl,
    followWords_comm different settledLeft settledRight ownLeft ownRight Iff.rfl Iff.rfl]

end Two

/-! ### All members -/

/-- The uses of the members of a class can be renamed in any order: no member has the name of the
class, before or after, and no new name is the old name of another field or of another method. -/
structure RenamedClass.IsSettled (renamed : RenamedClass) : Prop where
  plainClass : IsPlain renamed.className
  members : ∀ entry ∈ renamed.fields ++ renamed.methods,
    IsPlain entry.1 ∧ entry.1 ≠ renamed.className ∧ entry.2 ≠ renamed.className
  fields : ∀ entry ∈ renamed.fields, ∀ other ∈ renamed.fields, entry.2 ≠ other.1
  methods : ∀ entry ∈ renamed.methods, ∀ other ∈ renamed.methods, entry.2 ≠ other.1

instance (renamed : RenamedClass) : Decidable renamed.IsSettled :=
  decidable_of_iff (IsPlain renamed.className ∧
    (∀ entry ∈ renamed.fields ++ renamed.methods,
      IsPlain entry.1 ∧ entry.1 ≠ renamed.className ∧ entry.2 ≠ renamed.className) ∧
    (∀ entry ∈ renamed.fields, ∀ other ∈ renamed.fields, entry.2 ≠ other.1) ∧
    ∀ entry ∈ renamed.methods, ∀ other ∈ renamed.methods, entry.2 ≠ other.1)
    ⟨fun all => ⟨all.1, all.2.1, all.2.2.1, all.2.2.2⟩,
      fun settled => ⟨settled.plainClass, settled.members, settled.fields, settled.methods⟩⟩

/-- Rename the uses of some members of a class, in the order in which they are listed. -/
def followMembers (className : Text) (names : NewNames) (text : Text) : Text :=
  names.foldl (fun text entry => renameQualified className entry.1 entry.2 text) text

theorem followMembers_perm {className : Text} {names visited : NewNames}
    (same : visited.Perm names) (distinct : (names.map Prod.fst).Nodup)
    (isClass : IsPlain className)
    (plain : ∀ entry ∈ names, IsPlain entry.1 ∧ IsPlain entry.2)
    (own : ∀ entry ∈ names, entry.1 ≠ className ∧ entry.2 ≠ className)
    (settled : ∀ entry ∈ names, ∀ other ∈ names, entry.2 ≠ other.1) (text : Text) :
    followMembers className visited text = followMembers className names text := by
  refine (same.symm.foldl_eq' ?_ text).symm
  intro left isLeft right isRight text
  by_cases equal : left = right
  · rw [equal]
  · have different : left.1 ≠ right.1 := fun sameName =>
      equal (List.inj_on_of_nodup_map distinct isLeft isRight sameName)
    exact renameQualified_comm isClass (plain left isLeft).1 (plain left isLeft).2
      (plain right isRight).1 (plain right isRight).2 different (settled left isLeft right isRight)
      (settled right isRight left isLeft) (own left isLeft) (own right isRight) text

theorem renameMembersOf_order {one : RenamedClass} (settled : one.IsSettled)
    (distinct : one.HasDistinctMembers)
    (isNew : ∀ entry ∈ one.fields ++ one.methods, IsNewName entry.1 entry.2)
    (order other : MapOrder) (text : Text) :
    renameMembersOf order one text = renameMembersOf other one text := by
  have split (order : MapOrder) : renameMembersOf order one text =
      followMembers one.className (order.visit one.methods)
        (followMembers one.className (order.visit one.fields) text) :=
    List.foldl_append
  have plain : ∀ entry ∈ one.fields ++ one.methods, IsPlain entry.1 ∧ IsPlain entry.2 :=
    fun entry inside => ⟨(settled.members entry inside).1,
      (isNew entry inside).isPlain (settled.members entry inside).1⟩
  have own : ∀ entry ∈ one.fields ++ one.methods,
      entry.1 ≠ one.className ∧ entry.2 ≠ one.className :=
    fun entry inside => (settled.members entry inside).2
  have fields (order : MapOrder) := followMembers_perm (order.perm one.fields) distinct.1
    settled.plainClass (fun entry inside => plain entry (List.mem_append_left _ inside))
    (fun entry inside => own entry (List.mem_append_left _ inside)) settled.fields
  have methods (order : MapOrder) := followMembers_perm (order.perm one.methods) distinct.2
    settled.plainClass (fun entry inside => plain entry (List.mem_append_right _ inside))
    (fun entry inside => own entry (List.mem_append_right _ inside)) settled.methods
  rw [split, split, fields order, fields other, methods order, methods other]

/-- The classes are settled when each has its new names, and every pattern for their members can be
compiled. -/
def AreSettled (renamer : Renamer) (taken : List Text) (classes : List (Text × Text)) : Prop :=
  ∀ separate, (renameSeparately renamer.parser taken classes).1 = .ok separate →
    patternError? renamer separate = none ∧ ∀ one ∈ separate, one.IsSettled

theorem patternError?_eq_none {renamer : Renamer} {separate : List RenamedClass} :
    patternError? renamer separate = none ↔
      ∀ one ∈ separate, ∀ entry ∈ one.fields ++ one.methods,
        renamer.wordError? (path one.className entry.1) = none := by
  simp [patternError?, List.findSome?_eq_none_iff, mem_membersIn, path]

/-- Settled classes are renamed in the same way whatever the order of maps is. -/
theorem renameAll_order {renamer : Renamer} {taken : List Text} {classes : List (Text × Text)}
    (settled : AreSettled renamer taken classes) (order : MapOrder) :
    renameAll renamer taken classes = renameAll { renamer with order } taken classes := by
  cases first : renameSeparately renamer.parser taken classes with
  | mk result after =>
    cases result with
    | error error => rw [renameAll, renameAll, first]
    | ok separate =>
      have ran : (renameSeparately renamer.parser taken classes).1 = .ok separate := by rw [first]
      obtain ⟨compiled, areSettled⟩ := settled separate ran
      have each := patternError?_eq_none.mp compiled
      have compiledToo : patternError? { renamer with order } separate = none :=
        patternError?_eq_none.mpr each
      have uses : renameUses renamer.order separate = renameUses order separate := by
        refine List.map_congr_left fun one isOne => ?_
        have sameText : separate.foldl (fun text other => renameMembersOf renamer.order other text)
            one.source = separate.foldl (fun text other => renameMembersOf order other text)
              one.source := by
          refine List.foldl_ext _ _ _ fun text other isOther => ?_
          obtain ⟨entry, -, along⟩ := exists_isRenamedAlong_of_mem ran isOther
          exact renameMembersOf_order (areSettled other isOther)
            (hasDistinctMembers_of_isRenamedAlong along)
            (fun pair inside => (mem_pairs_of_isRenamedAlong along inside).1) _ _ text
        rw [sameText]
      rw [renameAll, renameAll, first]
      simp only [compiled, compiledToo, uses]

end Unpacking.Renaming

namespace Unpacking

/-! ### The analysis of a package -/

namespace Unpacker

/-- Some classes can be renamed whatever the order of maps is. -/
def AreSettled (toolkit : Toolkit) (classes : List ClassFact) : Prop :=
  ∀ renamer, toolkit.renamer = .ok renamer →
    Renaming.AreSettled renamer [] (classes.map fun fact => (fact.simpleName, fact.source))

variable {toolkit : Toolkit}

theorem renamedDraft_order {classes : List ClassFact} (settled : AreSettled toolkit classes)
    (order : MapOrder) :
    renamedDraft toolkit classes = renamedDraft { toolkit with order } classes := by
  cases usable : toolkit.parser with
  | error reason => simp only [renamedDraft, Toolkit.renamer, usable]
  | ok parser =>
      have renamer : toolkit.renamer =
          .ok { parser, wordError? := toolkit.wordError?, order := toolkit.order } := by
        rw [Toolkit.renamer, usable]
      have same := Renaming.renameAll_order (settled _ renamer) order
      simp only [renamedDraft, Toolkit.renamer, usable, same]

theorem synthesize_order {settings : SynthesisSettings} {path : Text} {facts : Facts}
    {found? : Option ClassFact}
    (settled : ∀ entry ∈ found?, AreSettled toolkit (Dependencies.collect entry facts))
    (order : MapOrder) :
    synthesize toolkit settings path facts found? =
      synthesize { toolkit with order } settings path facts found? := by
  cases found? with
  | none => rfl
  | some entry =>
      have same := renamedDraft_order (settled entry rfl) order
      have freed (draft : Draft) : freeDraft { toolkit with order } settings.contextStandIn draft =
          freeDraft toolkit settings.contextStandIn draft := by
        cases draft <;> rfl
      simp only [synthesize, synthesizeFrom, prepare, freedDraft, same, freed]

end Unpacker

namespace Analysis

theorem synthesis_order {toolkit : Toolkit} {settings : Settings} {subject : Subject}
    (settled : ∀ entry ∈ subject.entry,
      Unpacker.AreSettled toolkit (Dependencies.collect entry subject.facts))
    (order : MapOrder) :
    synthesis toolkit settings subject = synthesis { toolkit with order } settings subject := by
  rw [synthesis, synthesis, Unpacker.synthesize_order settled order]

/-- The analysis of a package does not depend on the order of maps if its classes are settled. -/
theorem run_order {toolkit : Toolkit} {settings : Settings} {path : Text}
    {loaded : Except LoadError Facts}
    (settled : ∀ facts, loaded = .ok facts → ∀ entry ∈ (Subject.of path facts).entry,
      Unpacker.AreSettled toolkit (Dependencies.collect entry facts))
    (cancelled : Bool) (order : MapOrder) :
    run toolkit settings cancelled path loaded =
      run { toolkit with order } settings cancelled path loaded := by
  cases loaded with
  | error error => rfl
  | ok facts =>
      have same := @synthesis_order toolkit settings (.of path facts) (settled facts rfl) order
      simp only [run, runOn, same]

end Analysis

end Unpacking
