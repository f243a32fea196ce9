import Unpacking.Proofs.Reflection.Inert
import Unpacking.Proofs.Renaming.Relabel
import Unpacking.Proofs.Text.Pattern
import Unpacking.Renaming.Qualified

/-!
The uses of members behind the names of their classes. A rule renames one member of one class, in
all places where it stands behind the name of the class. A use follows the rule of its own member,
and every other rule leaves it as it is. Main statements: `renameQualified_use`, `followAll_use`.
-/

namespace Unpacking.Renaming

open Java Text Pattern

/-! ### Where a rule applies -/

/-- A member behind the name of its class. -/
def path (className member : Text) : Text :=
  className ++ '.' :: member

theorem path_append (className member rest : Text) :
    path className member ++ rest = className ++ '.' :: (member ++ rest) :=
  List.append_assoc ..

/-- A text ends with the name of a class and a dot. -/
def EndsWith (className text : Text) : Prop :=
  ∃ front, text = front ++ (className ++ ['.']) ∧
    isBoundary front.getLast? className.head? = true

theorem not_endsWith_of_not_suffix {className text : Text}
    (absent : ¬className ++ ['.'] <:+ text) : ¬EndsWith className text := by
  rintro ⟨front, whole, -⟩
  exact absent ⟨front, whole.symm⟩

/-- A text in which one member has a new name behind the name of its class. -/
abbrev follow (className member new : Text) (before : Option Char) (text : Text) : Text :=
  replaceFrom (wholeWord (path className member)) (fun _ => path className new) 0 before text

theorem renameQualified_eq (className old new source : Text) :
    renameQualified className old new source = follow className old new none source := by
  simp [renameQualified, replaceAll, follow, path]

section Rule

variable {names : NewNames} {className member new : Text} (isClass : IsSourceWord className)
  (isHanded : IsHanded names member new)

theorem follow_none {before : Option Char} {c : Char} {rest : Text}
    (found : wholeWord (path className member) before (c :: rest) = none) :
    follow className member new before (c :: rest) =
      c :: follow className member new (some c) rest :=
  replaceFrom_none found

theorem follow_matched {before : Option Char} {rest : Text}
    (found : wholeWord (path className member) before (path className member ++ rest) =
      some (path className member).length) :
    follow className member new before (path className member ++ rest) =
      path className new ++
        follow className member new (lastOr before (path className member)) rest :=
  replaceFrom_matched (by simp [path]) found

theorem follow_keep {before : Option Char} {piece rest : Text}
    (free : ∀ front back, piece = front ++ back → back ≠ [] →
      wholeWord (path className member) (lastOr before front) (back ++ rest) = none) :
    follow className member new before (piece ++ rest) =
      piece ++ follow className member new (lastOr before piece) rest :=
  replaceFrom_keep free

section Relabels

include isHanded

theorem relabels_path (className : Text) :
    Relabels names (path className member) (path className new) := by
  have renamed := (Relabels.of_isHanded isHanded).append_left (className ++ ['.'])
  simpa [path] using renamed

/-- A rule replaces names by new names. -/
theorem relabels_follow (before : Option Char) (text : Text) :
    Relabels names text (follow className member new before text) := by
  refine @replaceFrom_induction _ _ (fun _ old new => Relabels names old new) (fun _ => .refl _)
    ?_ ?_ text before
  · intro before c rest changed _ relabels
    exact relabels.append_left [c]
  · intro before text size changed found relabels
    have whole := List.take_append_drop size text
    rw [take_of_wholeWord found] at whole
    have renamed := (relabels_path isHanded className).append relabels
    rwa [whole] at renamed

/-- A part of a text beyond which no match goes. -/
theorem follow_front {before : Option Char} {front rest : Text}
    (within : ∀ left right size, front = left ++ right → right ≠ [] →
      wholeWord (path className member) (lastOr before left) (right ++ rest) = some size →
        size ≤ right.length) :
    ∃ changed, Relabels names front changed ∧ follow className member new before (front ++ rest) =
      changed ++ follow className member new (lastOr before front) rest := by
  -- A match takes a part of the front, so the induction is on its length.
  induction size : front.length using Nat.strong_induction_on generalizing before front with
  | _ size inductionHypothesis =>
      subst size
      cases front with
      | nil => exact ⟨[], .refl [], rfl⟩
      | cons c front =>
          cases found : wholeWord (path className member) before (c :: (front ++ rest)) with
          | none =>
              obtain ⟨changed, relabels, replaced⟩ := @inductionHypothesis front.length
                (Nat.lt_succ_self _) (some c) front (fun left right size whole filled matched =>
                  within (c :: left) right size (by rw [whole, List.cons_append]) filled
                    (by rwa [lastOr_cons])) rfl
              refine ⟨c :: changed, relabels.append_left [c], ?_⟩
              rw [List.cons_append, follow_none found, replaced, lastOr_cons, List.cons_append]
          | some size =>
              have inside := within [] (c :: front) size rfl (List.cons_ne_nil c front) found
              obtain ⟨behind, whole, rfl, -⟩ := wholeWord_eq_some found
              obtain ⟨later, parts⟩ := List.prefix_of_prefix_length_le
                ⟨behind, whole.symm⟩ (List.prefix_append (c :: front) rest) inside
              rw [← List.cons_append, ← parts, List.append_assoc] at found
              rw [← parts]
              obtain ⟨changed, relabels, replaced⟩ := @inductionHypothesis later.length
                (by rw [← parts]; simp [path]; omega) (lastOr before (path className member)) later
                (fun left right size whole filled matched =>
                  within (path className member ++ left) right size
                    (by rw [← parts, whole, List.append_assoc]) filled
                    (by rwa [lastOr_append])) rfl
              refine ⟨path className new ++ changed,
                (relabels_path isHanded className).append relabels, ?_⟩
              rw [List.append_assoc, follow_matched found, replaced, lastOr_append,
                List.append_assoc]

end Relabels

end Rule

/-! ### Words and boundaries -/

/-- A name that patterns see as one word: there is no dollar sign in it. -/
structure IsPlain (name : Text) : Prop where
  filled : name ≠ []
  plain : ∀ c ∈ name, isWord c = true

instance (name : Text) : Decidable (IsPlain name) :=
  decidable_of_iff (name.isEmpty = false ∧ name.all isWord = true)
    ⟨fun both => ⟨List.isEmpty_eq_false_iff.mp both.1, List.all_eq_true.mp both.2⟩,
      fun isPlain => ⟨List.isEmpty_eq_false_iff.mpr isPlain.filled,
        List.all_eq_true.mpr isPlain.plain⟩⟩

theorem isWordPart_of_isWord {c : Char} (word : isWord c = true) : isWordPart c = true := by
  rw [isWord] at word
  split at word
  · exact isWordPart_of_isAsciiWord word
  · simp only [isWordPart, isWordStart, Bool.or_eq_true]
    exact .inl (.inr (by simpa using ‹¬c.toNat < 128›))

theorem isWord_of_isAsciiWord {c : Char} (ascii : isAsciiWord c = true) : isWord c = true := by
  rw [isAsciiWord, Bool.or_eq_true, beq_iff_eq] at ascii
  rcases ascii with alphanumeric | rfl
  · exact isWord_of_isAlphanum alphanumeric
  · decide

theorem IsNewName.isPlain {old new : Text} (isNew : IsNewName old new) (isPlain : IsPlain old) :
    IsPlain new :=
  ⟨isNew.ne_nil, isNew.forall_mem (fun _ => isWord_of_isAsciiWord) isPlain.plain⟩

theorem IsPlain.isWordAt_lastOr {name : Text} (isPlain : IsPlain name) (before : Option Char) :
    isWordAt (lastOr before name) = true := by
  rw [lastOr, List.getLast?_eq_some_getLast isPlain.filled]
  exact isPlain.plain _ (List.getLast_mem _)

theorem IsPlain.isWordAt_head? {name : Text} (isPlain : IsPlain name) (rest : Text) :
    isWordAt (name ++ rest).head? = true := by
  obtain ⟨c, name, rfl⟩ := List.exists_cons_of_ne_nil isPlain.filled
  exact isPlain.plain c (List.mem_cons_self ..)

theorem IsPlain.front {name front back : Text} (isPlain : IsPlain name)
    (whole : name = front ++ back) (filled : front ≠ []) : IsPlain front :=
  ⟨filled, fun c member => isPlain.plain c (by simp [whole, member])⟩

theorem IsPlain.back {name front back : Text} (isPlain : IsPlain name)
    (whole : name = front ++ back) (filled : back ≠ []) : IsPlain back :=
  ⟨filled, fun c member => isPlain.plain c (by simp [whole, member])⟩

theorem BeginsApart.isWordAt {text : Text} (apart : BeginsApart text) :
    isWordAt text.head? = false := by
  cases text with
  | nil => rfl
  | cons c text =>
      have other := apart c rfl
      exact Bool.eq_false_iff.mpr fun word => by simp [isWordPart_of_isWord word] at other

theorem EndsApart.isWordAt_lastOr {text : Text} (apart : EndsApart text) :
    isWordAt (lastOr none text) = false := by
  rw [lastOr]
  cases last : text.getLast? with
  | none => rfl
  | some c =>
      have other := apart c last
      exact Bool.eq_false_iff.mpr fun word => by simp [isWordPart_of_isWord word] at other

theorem lastOr_none (text : Text) : lastOr none text = text.getLast? := by
  rw [lastOr]
  cases text.getLast? with
  | none => rfl
  | some c => rfl

theorem isBoundary_of_ne {before after : Option Char}
    (different : isWordAt before ≠ isWordAt after) : isBoundary before after = true := by
  rw [isBoundary, bne_iff_ne]
  exact different

/-- A word that ends at a boundary, where another word stands. -/
theorem word_eq_of_boundary {word other rest after : Text} {before : Option Char}
    (filled : word ≠ []) (parts : ∀ c ∈ word, isWordPart c = true) (isPlain : IsPlain other)
    (apart : BeginsApart after) (whole : word ++ rest = other ++ after)
    (ends : isBoundary (lastOr before word) rest.head? = true) : word = other ∧ rest = after := by
  rcases List.append_eq_append_iff.mp whole with ⟨more, same, behind⟩ | ⟨more, same, behind⟩
  · by_cases empty : more = []
    · subst empty
      exact ⟨by simpa using same.symm, by simpa using behind⟩
    · have inWord := (isPlain.front same filled).isWordAt_lastOr before
      have next := (isPlain.back same empty).isWordAt_head? after
      rw [← behind, isWordAt_of_isBoundary inWord ends] at next
      exact absurd next (by decide)
  · by_cases empty : more = []
    · subst empty
      exact ⟨by simpa using same, by simpa using behind.symm⟩
    · obtain ⟨c, more, rfl⟩ := List.exists_cons_of_ne_nil empty
      have other := apart c (by rw [behind]; rfl)
      rw [parts c (by simp [same])] at other
      exact absurd other (by decide)

/-- Two texts with a dot behind a word, where the words end. -/
theorem word_eq_of_dot {word other rest after : Text} (parts : ∀ c ∈ word, isWordPart c = true)
    (isPlain : IsPlain other) (apart : BeginsApart after)
    (whole : word ++ '.' :: rest = other ++ after) : word = other ∧ after = '.' :: rest := by
  rcases List.append_eq_append_iff.mp whole with ⟨more, same, behind⟩ | ⟨more, same, behind⟩
  · cases more with
    | nil => exact ⟨by simpa using same.symm, by simpa using behind.symm⟩
    | cons c more =>
        obtain ⟨rfl, -⟩ := List.cons.inj behind
        exact absurd (isPlain.plain '.' (by simp [same])) (by decide)
  · cases more with
    | nil => exact ⟨by simpa using same, by simpa using behind⟩
    | cons c more =>
        have other := apart c (by rw [behind]; rfl)
        rw [parts c (by simp [same])] at other
        exact absurd other (by decide)

theorem beginsApart_dot (text : Text) : BeginsApart ('.' :: text) := by
  intro c member
  rw [List.head?_cons, Option.mem_some_iff] at member
  rw [← member]
  decide

/-! ### The use of a member -/

section Use

variable {names : NewNames} {className member new owner current before after : Text}
  (isClass : IsSourceWord className) (isMember : IsSourceWord member)
  (isHanded : IsHanded names member new) (isOwner : IsPlain owner) (isCurrent : IsPlain current)
  (left : EndsApart before) (right : BeginsApart after)

include isClass isMember isOwner left in
/-- No match goes from the text before a use into the use, unless the name of the class is a member
of another class there. -/
theorem length_le_of_wholeWord (free : member = owner → ¬EndsWith className before)
    {rest front back : Text} {size : Nat} (whole : before = front ++ back) (filled : back ≠ [])
    (found : wholeWord (path className member) (lastOr none front)
      (back ++ (owner ++ '.' :: rest)) = some size) : size ≤ back.length := by
  obtain ⟨behind, parts, rfl, begins, ends⟩ := wholeWord_eq_some found
  have notInWord (start word : Text) (inWord : back = start ++ word) (some : word ≠ [])
      (isWord : ∀ c ∈ word, isWordPart c = true) : False := by
    rw [whole, inWord, ← List.append_assoc] at left
    exact not_endsApart_append some isWord left
  rcases List.append_eq_append_iff.mp parts with ⟨more, same, further⟩ | ⟨more, same, -⟩
  · -- The text before the use is the front of a match. It ends with the dot of the match.
    rcases List.append_eq_append_iff.mp same with ⟨inside, split, dotted⟩ | ⟨inside, split, -⟩
    · cases inside with
      | nil =>
          rw [List.append_nil] at split
          exact (notInWord [] back rfl filled fun c member => isClass.parts c (split ▸ member)).elim
      | cons c inside =>
          have named : member = inside ++ more := (List.cons.inj dotted).2
          obtain rfl : '.' = c := (List.cons.inj dotted).1
          by_cases empty : inside = []
          · rw [empty, List.nil_append] at named
            rw [path, lastOr_append, lastOr_cons] at ends
            have isOwn := word_eq_of_boundary isMember.ne_nil isMember.parts isOwner
              (beginsApart_dot rest) (by rw [named, ← further]) ends
            rw [split, List.append_assoc, List.head?_append_of_ne_nil _ isClass.ne_nil,
              lastOr_none] at begins
            exact (free isOwn.1 ⟨front, by rw [whole, split, empty], begins⟩).elim
          · exact (notInWord (className ++ ['.']) inside (by simp [split]) empty
              fun c inMember => isMember.parts c (by simp [named, inMember])).elim
    · exact (notInWord [] back rfl filled fun c member =>
        isClass.parts c (by simp [split, member])).elim
  · rw [same, List.length_append]
    exact Nat.le_add_right ..

/-- No match begins inside a word. -/
theorem wholeWord_inside {name word front back : Text} (isPlain : IsPlain name)
    (whole : name = front ++ back) (some : front ≠ []) (filled : back ≠ []) (start : Option Char)
    (rest : Text) : wholeWord word (lastOr start front) (back ++ rest) = none := by
  cases found : wholeWord word (lastOr start front) (back ++ rest) with
  | none => rfl
  | some size =>
      obtain ⟨-, -, -, starts, -⟩ := wholeWord_eq_some found
      have inWord := (isPlain.front whole some).isWordAt_lastOr start
      have next := (isPlain.back whole filled).isWordAt_head? rest
      rw [isWordAt_of_isBoundary inWord starts] at next
      exact absurd next (by decide)

include isOwner isCurrent right in
/-- The rule of the member applies. -/
theorem follow_own {start : Option Char} (apart : isWordAt start = false) :
    follow owner current new start (path owner current ++ after) =
      path owner new ++ follow owner current new (lastOr start (path owner current)) after := by
  refine follow_matched (wholeWord_append (isBoundary_of_ne ?_) (isBoundary_of_ne ?_))
  · rw [apart, path_append, isOwner.isWordAt_head?]
    decide
  · rw [path, lastOr_append, lastOr_cons, isCurrent.isWordAt_lastOr, right.isWordAt]
    decide

include isClass isHanded isCurrent right in
/-- The member of a use stays, when a rule does not rename it. -/
theorem follow_current : ∃ changed, Relabels names after changed ∧
    follow className member new (some '.') (current ++ after) = current ++ changed := by
  cases found : wholeWord (path className member) (some '.') (current ++ after) with
  | some size =>
      -- The member has the name of a class, and the rule renames a member of it.
      obtain ⟨rest, whole, rfl, -⟩ := wholeWord_eq_some found
      have dotted : className ++ '.' :: (member ++ rest) = current ++ after := by
        rw [← path_append, whole]
      obtain ⟨rfl, rfl⟩ := word_eq_of_dot isClass.parts isCurrent right dotted
      refine ⟨'.' :: (new ++ follow className member new
        (lastOr (some '.') (path className member)) rest), ?_, ?_⟩
      · exact ((Relabels.of_isHanded isHanded).append
          (relabels_follow isHanded _ rest)).append_left ['.']
      · rw [whole] at found ⊢
        rw [follow_matched found, path_append]
  | none =>
      refine ⟨_, relabels_follow isHanded _ after, follow_keep fun front back whole filled => ?_⟩
      by_cases empty : front = []
      · subst empty
        rw [List.nil_append] at whole
        rwa [← whole]
      · exact wholeWord_inside isCurrent whole empty filled _ after

include isClass in
/-- No match begins at a dot. -/
theorem wholeWord_dot (start : Option Char) (rest : Text) :
    wholeWord (path className member) start (['.'] ++ rest) = none := by
  cases found : wholeWord (path className member) start (['.'] ++ rest) with
  | none => rfl
  | some size =>
      obtain ⟨behind, parts, -⟩ := wholeWord_eq_some found
      obtain ⟨c, more, rfl, starts⟩ := isClass.starts
      rw [← (List.cons.inj parts).1] at starts
      exact absurd starts (by decide)

include isClass isMember isOwner isCurrent right in
/-- A match that begins with the use takes the whole use. -/
theorem wholeWord_use {start : Option Char}
    (different : ¬(className = owner ∧ member = current)) :
    wholeWord (path className member) start (path owner current ++ after) = none := by
  cases found : wholeWord (path className member) start (path owner current ++ after) with
  | none => rfl
  | some size =>
      obtain ⟨rest, parts, -, -, ends⟩ := wholeWord_eq_some found
      have dotted : className ++ '.' :: (member ++ rest) = owner ++ '.' :: (current ++ after) := by
        rw [← path_append, ← path_append, parts]
      obtain ⟨sameClass, behind⟩ := word_eq_of_dot isClass.parts isOwner (beginsApart_dot _) dotted
      rw [path, lastOr_append, lastOr_cons] at ends
      obtain ⟨sameMember, -⟩ := word_eq_of_boundary isMember.ne_nil isMember.parts isCurrent right
        (List.cons.inj behind).2.symm ends
      exact absurd ⟨sameClass, sameMember⟩ different

include isClass isMember isOwner isCurrent right in
/-- No match begins at the name of the class or at the dot. -/
theorem wholeWord_owner {start : Option Char}
    (different : ¬(className = owner ∧ member = current)) {front back : Text}
    (whole : owner ++ ['.'] = front ++ back) (filled : back ≠ []) :
    wholeWord (path className member) (lastOr start front) (back ++ (current ++ after)) = none := by
  rcases List.append_eq_append_iff.mp whole with ⟨more, split, dotted⟩ | ⟨more, split, dotted⟩
  · obtain rfl : back = ['.'] := by
      cases more with
      | nil => simpa using dotted.symm
      | cons c more => simp_all
    exact wholeWord_dot isClass _ _
  · by_cases empty : more = []
    · rw [dotted, empty, List.nil_append]
      exact wholeWord_dot isClass _ _
    · by_cases first : front = []
      · subst first
        have use : back ++ (current ++ after) = path owner current ++ after := by
          rw [List.nil_append] at whole
          rw [← whole]
          simp [path]
        rw [use, lastOr_nil]
        exact wholeWord_use isClass isMember isOwner isCurrent right different
      · rw [dotted, List.append_assoc]
        exact wholeWord_inside isOwner split first empty start _

include isClass isHanded isOwner isCurrent right in
/-- A rule for something else leaves a use as it is. -/
theorem follow_other {start : Option Char} (different : ¬(className = owner ∧ member = current)) :
    ∃ changed, Relabels names after changed ∧
      follow className member new start (path owner current ++ after) =
        path owner current ++ changed := by
  obtain ⟨changed, relabels, kept⟩ := follow_current isClass isHanded isCurrent right
  refine ⟨changed, relabels, ?_⟩
  have split (rest : Text) : path owner current ++ rest = owner ++ ['.'] ++ (current ++ rest) := by
    simp [path]
  rw [split, split, follow_keep fun front back => wholeWord_owner isClass isHanded.isWord isOwner
    isCurrent right different, lastOr_append_singleton, kept]

include isClass isHanded isOwner isCurrent left right in
/-- A rule renames the member of a use exactly if it is the rule of this member of this class. -/
theorem renameQualified_use (free : member = owner → ¬EndsWith className before) :
    ∃ changed changedToo, Relabels names before changed ∧ Relabels names after changedToo ∧
      renameQualified className member new (before ++ (path owner current ++ after)) =
        changed ++ (path owner (if className = owner ∧ member = current then new else current) ++
          changedToo) := by
  have within : ∀ front back size, before = front ++ back → back ≠ [] →
      wholeWord (path className member) (lastOr none front)
        (back ++ (path owner current ++ after)) = some size → size ≤ back.length := by
    intro front back size whole filled found
    rw [path_append owner] at found
    exact length_le_of_wholeWord isClass isHanded.isWord isOwner left free whole filled found
  obtain ⟨changed, relabels, replaced⟩ := follow_front isHanded within
  rw [renameQualified_eq, replaced]
  split
  · rename_i own
    obtain ⟨rfl, rfl⟩ := own
    rw [follow_own isOwner isCurrent right left.isWordAt_lastOr]
    exact ⟨changed, _, relabels, relabels_follow isHanded _ after, rfl⟩
  · rename_i different
    obtain ⟨changedToo, also, kept⟩ := follow_other isClass isHanded isOwner isCurrent right
      different
    exact ⟨changed, changedToo, relabels, also, by rw [kept]⟩

end Use

/-! ### All rules -/

/-- Members with their classes and their new names. -/
abbrev Rules := List ((Text × Text) × Text)

/-- The members of some classes, in the order in which they are renamed. -/
def rules (order : MapOrder) (renamed : List RenamedClass) : Rules :=
  renamed.flatMap fun one =>
    (one.membersIn order).map fun entry => ((one.className, entry.1), entry.2)

/-- A text in which members are renamed one after the other. -/
def followAll (rules : Rules) (text : Text) : Text :=
  rules.foldl (fun text rule => renameQualified rule.1.1 rule.1.2 rule.2 text) text

theorem foldl_renameMembersOf (order : MapOrder) (renamed : List RenamedClass) (text : Text) :
    renamed.foldl (fun text other => renameMembersOf order other text) text =
      followAll (rules order renamed) text := by
  induction renamed generalizing text with
  | nil => rfl
  | cons one renamed inductionHypothesis =>
      rw [List.foldl_cons, inductionHypothesis, rules, rules, List.flatMap_cons, followAll, followAll,
        List.foldl_append, List.foldl_map]
      rfl

/-- A rule that does not take the name of the owner for a member behind some text, whatever new
names the text gets. -/
structure IsRule (names : NewNames) (owner before : Text) (rule : (Text × Text) × Text) : Prop where
  isClass : IsSourceWord rule.1.1
  isHanded : IsHanded names rule.1.2 rule.2
  free : rule.1.2 = owner → ∀ changed, Relabels names before changed → ¬EndsWith rule.1.1 changed

namespace IsRule

variable {names : NewNames} {owner before changed : Text} {rule : (Text × Text) × Text}

theorem not_endsWith (isRule : IsRule names owner before rule) (same : rule.1.2 = owner) :
    ¬EndsWith rule.1.1 before :=
  isRule.free same before (.refl before)

theorem relabels (isRule : IsRule names owner before rule)
    (relabels : Relabels names before changed) : IsRule names owner changed rule where
  isClass := isRule.isClass
  isHanded := isRule.isHanded
  free := fun same final further => isRule.free same final (relabels.trans further)

end IsRule

section Rules

variable {names : NewNames} {owner current before after : Text} (isOwner : IsPlain owner)

include isOwner

/-- Rules for other members leave a use as it is. -/
theorem followAll_other (isCurrent : IsPlain current) (left : EndsApart before)
    (right : BeginsApart after) {rules : Rules}
    (areRules : ∀ rule ∈ rules, IsRule names owner before rule)
    (absent : ∀ rule ∈ rules, rule.1 ≠ (owner, current)) :
    ∃ changed changedToo, Relabels names before changed ∧ Relabels names after changedToo ∧
      followAll rules (before ++ (path owner current ++ after)) =
        changed ++ (path owner current ++ changedToo) := by
  induction rules generalizing before after with
  | nil => exact ⟨before, after, .refl before, .refl after, rfl⟩
  | cons rule rules inductionHypothesis =>
      obtain ⟨isRule, others⟩ := List.forall_mem_cons.mp areRules
      obtain ⟨different, alsoDifferent⟩ := List.forall_mem_cons.mp absent
      obtain ⟨changed, changedToo, relabels, also, renamed⟩ := renameQualified_use isRule.isClass
        isRule.isHanded isOwner isCurrent left right isRule.not_endsWith
      obtain ⟨final, finalToo, further, alsoFurther, followed⟩ := inductionHypothesis
        (relabels.endsApart left) (also.beginsApart right)
        (fun rule member => (others rule member).relabels relabels) alsoDifferent
      refine ⟨final, finalToo, relabels.trans further, also.trans alsoFurther, ?_⟩
      rw [if_neg fun same => different (Prod.ext same.1 same.2)] at renamed
      rw [followAll, List.foldl_cons, renamed]
      exact followed

/-- A use follows the rule of its member, and then no other one. -/
theorem followAll_use {member new : Text} (isMember : IsPlain member) (left : EndsApart before)
    (right : BeginsApart after) {rules : Rules}
    (areRules : ∀ rule ∈ rules, IsRule names owner before rule)
    (found : rules.lookup (owner, member) = some new)
    (settled : ∀ rule ∈ rules, rule.1 ≠ (owner, new)) :
    ∃ changed changedToo, Relabels names before changed ∧ Relabels names after changedToo ∧
      followAll rules (before ++ (path owner member ++ after)) =
        changed ++ (path owner new ++ changedToo) := by
  obtain ⟨early, late, rfl, absent⟩ := List.lookup_eq_some_iff.mp found
  simp only [List.forall_mem_append, List.forall_mem_cons] at areRules settled
  obtain ⟨areEarly, isRule, areLate⟩ := areRules
  obtain ⟨changed, changedToo, relabels, also, followed⟩ := followAll_other isOwner isMember left
    right areEarly fun rule member same => by simpa [same] using absent rule member
  have leftNow := relabels.endsApart left
  have rightNow := also.beginsApart right
  have ruleNow := isRule.relabels relabels
  obtain ⟨next, nextToo, renames, renamesToo, renamed⟩ := renameQualified_use ruleNow.isClass
    ruleNow.isHanded isOwner isMember leftNow rightNow ruleNow.not_endsWith
  rw [if_pos ⟨rfl, rfl⟩] at renamed
  obtain ⟨final, finalToo, further, alsoFurther, settledDown⟩ := followAll_other isOwner
    (isRule.isHanded.isNew.isPlain isMember) (renames.endsApart leftNow)
    (renamesToo.beginsApart rightNow)
    (fun rule member => ((areLate rule member).relabels relabels).relabels renames)
    settled.2.2
  refine ⟨final, finalToo, (relabels.trans renames).trans further,
    (also.trans renamesToo).trans alsoFurther, ?_⟩
  rw [followAll, List.foldl_append, List.foldl_cons]
  rw [followAll] at followed settledDown
  rw [followed, renamed, settledDown]

end Rules

end Unpacking.Renaming
