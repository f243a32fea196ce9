import Unpacking.Proofs.Substitution.Inert
import Unpacking.Proofs.Text.Items

/-!
Constructions of class loaders with arbitrary arguments. The arguments are told apart whatever
brackets they hold, but the end of the call is only found if no argument nests parentheses more than
once. Otherwise the construction keeps its arguments and just the name of the class loader is
replaced. Main statement: `classLoader_construction`.
-/

namespace Unpacking.Substitution

open Text

/-! ### Balanced texts -/

/-- The kinds of brackets. -/
inductive Bracket where
  | round
  | square
  | curly

def Bracket.opening : Bracket → Char
  | .round => '('
  | .square => '['
  | .curly => '{'

def Bracket.closing : Bracket → Char
  | .round => ')'
  | .square => ']'
  | .curly => '}'

/-- A text in which every bracket is closed by a bracket of its kind. -/
inductive Balanced where
  | empty
  | character (c : Char) (plain : bracketStep c = 0) (behind : Balanced)
  | group (bracket : Bracket) (inside behind : Balanced)

namespace Balanced

def text : Balanced → Text
  | .empty => []
  | .character c _ behind => c :: behind.text
  | .group bracket inside behind =>
    bracket.opening :: (inside.text ++ bracket.closing :: behind.text)

/-- How deep the parentheses of a text are nested. -/
def nesting : Balanced → Nat
  | .empty => 0
  | .character _ _ behind => behind.nesting
  | .group .round inside behind => max (inside.nesting + 1) behind.nesting
  | .group _ inside behind => max inside.nesting behind.nesting

/-- Whether a text has no comma outside of its brackets. -/
def isSingle : Balanced → Bool
  | .empty => true
  | .character c _ behind => c != ',' && behind.isSingle
  | .group _ _ behind => behind.isSingle

end Balanced

/-! ### The end of a call -/

theorem callArguments?_plain {c : Char} (notOpening : c ≠ '(') (notClosing : c ≠ ')')
    (nested : Bool) (rest : Text) :
    callArguments? nested (c :: rest) =
      (callArguments? nested rest).map fun read => (c :: read.1, read.2) := by
  rw [callArguments?, if_neg notClosing, if_neg notOpening]

/-- A group is passed by if its inside and what follows it are. -/
theorem callArguments?_group {opening closing : Char} {nested within : Bool}
    {inside behind rest : Text} {first second : Nat}
    (opened : ∀ rest, callArguments? nested (opening :: rest) =
      (callArguments? within rest).map fun read => (opening :: read.1, read.2))
    (closed : ∀ rest, callArguments? within (closing :: rest) =
      (callArguments? nested rest).map fun read => (closing :: read.1, read.2))
    (passInside : ∀ rest, callArguments? within (inside ++ rest) =
      if first + within.toNat ≤ 1 then
        (callArguments? within rest).map fun read => (inside ++ read.1, read.2)
      else none)
    (passBehind : callArguments? nested (behind ++ rest) =
      if second + nested.toNat ≤ 1 then
        (callArguments? nested rest).map fun read => (behind ++ read.1, read.2)
      else none) :
    callArguments? nested (opening :: (inside ++ (closing :: (behind ++ rest)))) =
      if first + within.toNat ≤ 1 ∧ second + nested.toNat ≤ 1 then
        (callArguments? nested rest).map
          fun read => (opening :: (inside ++ closing :: behind) ++ read.1, read.2)
      else none := by
  rw [opened, passInside, closed, passBehind]
  by_cases shallow : first + within.toNat ≤ 1
  · by_cases shallowToo : second + nested.toNat ≤ 1
    · rw [if_pos shallow, if_pos shallowToo, if_pos ⟨shallow, shallowToo⟩, Option.map_map,
        Option.map_map, Option.map_map]
      simp [Function.comp_def]
    · rw [if_pos shallow, if_neg shallowToo, if_neg fun both => shallowToo both.2]
      rfl
  · rw [if_neg shallow, if_neg fun both => shallow both.1]
    rfl

/-- Parentheses may be nested once: a balanced text is passed by, or there is no end. -/
theorem callArguments?_text_append (balanced : Balanced) (nested : Bool) (rest : Text) :
    callArguments? nested (balanced.text ++ rest) =
      if balanced.nesting + nested.toNat ≤ 1 then
        (callArguments? nested rest).map fun read => (balanced.text ++ read.1, read.2)
      else none := by
  induction balanced generalizing nested rest with
  | empty => cases nested <;> simp [Balanced.text, Balanced.nesting]
  | character c plain behind inductionHypothesis =>
      have notOpening : c ≠ '(' := by
        rintro rfl
        exact absurd plain (by decide)
      have notClosing : c ≠ ')' := by
        rintro rfl
        exact absurd plain (by decide)
      rw [Balanced.text, List.cons_append, callArguments?_plain notOpening notClosing,
        inductionHypothesis, Balanced.nesting]
      split
      · rw [Option.map_map]
        rfl
      · rfl
  | group bracket inside behind insideHypothesis behindHypothesis =>
      have split : (Balanced.group bracket inside behind).text ++ rest =
          bracket.opening :: (inside.text ++ (bracket.closing :: (behind.text ++ rest))) := by
        simp [Balanced.text]
      rw [split]
      cases bracket with
      | round =>
          cases nested with
          | true =>
              have deep : ¬(Balanced.group .round inside behind).nesting + true.toNat ≤ 1 := by
                simp only [Balanced.nesting, Bool.toNat_true]
                omega
              rw [if_neg deep]
              rfl
          | false =>
              -- A group of parentheses takes the one level that may be nested.
              have passed := @callArguments?_group '(' ')' false true _ _ _ _ _ (fun _ => rfl)
                (fun _ => rfl) (insideHypothesis true) (behindHypothesis false rest)
              refine passed.trans (if_congr ?_ rfl rfl)
              simp only [Balanced.nesting, Bool.toNat_true, Bool.toNat_false]
              omega
      | square =>
          have passed := @callArguments?_group '[' ']' nested nested _ _ _ _ _
            (callArguments?_plain (by decide) (by decide) nested)
            (callArguments?_plain (by decide) (by decide) nested) (insideHypothesis nested)
            (behindHypothesis nested rest)
          refine passed.trans (if_congr ?_ rfl rfl)
          simp only [Balanced.nesting]
          omega
      | curly =>
          have passed := @callArguments?_group '{' '}' nested nested _ _ _ _ _
            (callArguments?_plain (by decide) (by decide) nested)
            (callArguments?_plain (by decide) (by decide) nested) (insideHypothesis nested)
            (behindHypothesis nested rest)
          refine passed.trans (if_congr ?_ rfl rfl)
          simp only [Balanced.nesting]
          omega

/-! ### Names of class loaders -/

/-- The names of the class loaders of the platform. -/
def loaderNames : List Text :=
  ["DexClassLoader", "PathClassLoader"]

/-- Whether a text holds no name of a class loader. -/
def isLoaderless (text : Text) : Bool :=
  loaderNames.all fun loader => !occursIn loader text

theorem isLoaderless_iff {text : Text} :
    isLoaderless text = true ↔ ∀ loader ∈ loaderNames, ¬loader <:+: text := by
  simp only [isLoaderless, List.all_eq_true, Bool.not_eq_true', Bool.eq_false_iff, ne_eq,
    occursIn_iff_infix]

theorem isLoaderless_part {part text : Text} (loaderless : isLoaderless text = true)
    (inside : part <:+: text) : isLoaderless part = true := by
  rw [isLoaderless_iff] at loaderless ⊢
  intro loader listed found
  exact loaderless loader listed (found.trans inside)

theorem exists_of_loaderName? {text rest : Text} (found : loaderName? text = some rest) :
    ∃ loader ∈ loaderNames, text = loader ++ rest := by
  rcases Option.or_eq_some_iff.mp found with dex | ⟨-, path⟩
  · exact ⟨_, by decide, after?_eq_some dex⟩
  · exact ⟨_, by decide, after?_eq_some path⟩

theorem loaderName?_of_isLoaderless {text : Text} (loaderless : isLoaderless text = true) :
    loaderName? text = none := by
  cases found : loaderName? text with
  | none => rfl
  | some rest =>
      obtain ⟨loader, listed, rfl⟩ := exists_of_loaderName? found
      exact absurd (List.prefix_append loader rest).isInfix
        (isLoaderless_iff.mp loaderless loader listed)

theorem loaderName?_append {loader : Text} (listed : loader ∈ loaderNames) (rest : Text) :
    loaderName? (loader ++ rest) = some rest := by
  rcases List.mem_pair.mp listed with rfl | rfl <;> rfl

/-- A name that is found in two texts together but in neither of them lies across their border. -/
theorem infix_append_cases {word left right : Text} (found : word <:+: left ++ right) :
    word <:+: left ∨ word <:+: right ∨
      ∃ front back, front ≠ [] ∧ back ≠ [] ∧ word = front ++ back ∧ front <:+ left ∧
        back <+: right := by
  obtain ⟨before, behind, whole⟩ := found
  rw [List.append_assoc] at whole
  rcases List.append_eq_append_iff.mp whole with ⟨middle, rfl, split⟩ | ⟨middle, rfl, split⟩
  · rcases List.append_eq_append_iff.mp split with ⟨last, rfl, -⟩ | ⟨last, rfl, same⟩
    · exact .inl ⟨before, last, by simp⟩
    · by_cases none : middle = []
      · exact .inr (.inl ⟨[], behind, by simp [none, same]⟩)
      · by_cases noneToo : last = []
        · exact .inl ⟨before, [], by simp [noneToo]⟩
        · exact .inr (.inr ⟨middle, last, none, noneToo, rfl, List.suffix_append before middle,
            same ▸ List.prefix_append last behind⟩)
  · exact .inr (.inl ⟨middle, behind, by rw [List.append_assoc, split]⟩)

/-- The characters of no name of a class loader. -/
def isForeign (c : Char) : Bool :=
  loaderNames.all fun loader => !loader.contains c

theorem not_mem_of_isForeign {c : Char} (foreign : isForeign c = true) {loader : Text}
    (listed : loader ∈ loaderNames) : c ∉ loader := by
  have absent := List.all_eq_true.mp foreign loader listed
  simpa using absent

theorem isLoaderless_cons {c : Char} {text : Text} (foreign : isForeign c = true) :
    isLoaderless (c :: text) = isLoaderless text := by
  rw [Bool.eq_iff_iff, isLoaderless_iff, isLoaderless_iff]
  refine forall₂_congr fun loader listed => not_congr ?_
  have begun : loader ≠ [] := by
    have filled : ∀ loader ∈ loaderNames, loader ≠ [] := by decide
    exact filled loader listed
  rw [List.infix_cons_iff]
  refine or_iff_right fun first => ?_
  obtain ⟨d, rest, rfl⟩ := List.exists_cons_of_ne_nil begun
  rw [List.cons_prefix_cons] at first
  exact not_mem_of_isForeign foreign listed (by simp [first.1])

/-- A foreign character keeps the texts around it apart. -/
theorem isLoaderless_append_cons {c : Char} (foreign : isForeign c = true) (left right : Text) :
    isLoaderless (left ++ c :: right) = (isLoaderless left && isLoaderless right) := by
  rw [Bool.eq_iff_iff, Bool.and_eq_true]
  constructor
  · intro whole
    refine ⟨isLoaderless_part whole (List.prefix_append _ _).isInfix, ?_⟩
    exact isLoaderless_part whole
      ((List.suffix_cons c right).trans (List.suffix_append left _)).isInfix
  · rintro ⟨inLeft, inRight⟩
    rw [← isLoaderless_cons foreign] at inRight
    rw [isLoaderless_iff] at inLeft inRight ⊢
    intro loader listed found
    rcases infix_append_cases found with there | there | ⟨front, back, -, filled, rfl, -, begun⟩
    · exact inLeft loader listed there
    · exact inRight loader listed there
    · obtain ⟨d, back, rfl⟩ := List.exists_cons_of_ne_nil filled
      rw [List.cons_prefix_cons] at begun
      exact not_mem_of_isForeign foreign listed (by simp [begun.1])

/-- No name of a class loader goes on behind a space. -/
theorem loaderName?_append_of_space {left : Text} (loaderless : isLoaderless left = true)
    (ending : left.getLast? = some ' ') (rest : Text) : loaderName? (left ++ rest) = none := by
  cases found : loaderName? (left ++ rest) with
  | none => rfl
  | some behind =>
      obtain ⟨loader, listed, whole⟩ := exists_of_loaderName? found
      rcases List.append_eq_append_iff.mp whole with ⟨more, rfl, -⟩ | ⟨more, rfl, -⟩
      · exact absurd (List.mem_append_left more (List.mem_of_getLast? ending))
          (not_mem_of_isForeign (by decide) listed)
      · exact absurd (List.prefix_append loader more).isInfix
          (isLoaderless_iff.mp loaderless loader listed)

/-- No name of a class loader goes on into the word `new`. -/
theorem isLoaderless_append_new {text : Text} (loaderless : isLoaderless text = true) :
    isLoaderless (text ++ "new ") = true := by
  have ending : ∀ loader ∈ loaderNames, loader.getLast? = some 'r' := by decide
  have short : isLoaderless "new " = true := by decide
  rw [isLoaderless_iff] at loaderless short ⊢
  intro loader listed found
  rcases infix_append_cases found with there | there | ⟨front, back, -, filled, rfl, -, begun⟩
  · exact loaderless loader listed there
  · exact short loader listed there
  · have last := ending _ listed
    rw [List.getLast?_append_of_ne_nil front filled] at last
    exact absurd (begun.mem (List.mem_of_getLast? last)) (by decide)

/-! ### Arguments -/

/-- An argument of a call: it holds no comma outside of its brackets and no name of a class loader,
and it does not consist of blanks. -/
structure Argument where
  content : Balanced
  single : content.isSingle = true
  filled : trim content.text ≠ []
  loaderless : isLoaderless content.text = true

abbrev Argument.text (argument : Argument) : Text :=
  argument.content.text

/-- The arguments of a call as they are written. -/
def written (arguments : List Argument) : Text :=
  join [','] (arguments.map Argument.text)

theorem written_cons_cons (first second : Argument) (others : List Argument) :
    written (first :: second :: others) = first.text ++ ',' :: written (second :: others) := by
  simp [written, join]

theorem isLoaderless_written (arguments : List Argument) :
    isLoaderless (written arguments) = true := by
  induction arguments with
  | nil => decide
  | cons first others inductionHypothesis =>
      cases others with
      | nil => exact first.loaderless
      | cons second others =>
          rw [written_cons_cons, isLoaderless_append_cons (by decide), first.loaderless,
            inductionHypothesis]
          rfl

/-- Whether no argument nests parentheses more than once. -/
def isShallow (arguments : List Argument) : Bool :=
  arguments.all fun argument => argument.content.nesting ≤ 1

theorem isShallow_cons (first : Argument) (others : List Argument) :
    isShallow (first :: others) = (decide (first.content.nesting ≤ 1) && isShallow others) := rfl

/-- The end of a call is found if its arguments are shallow. -/
theorem callArguments?_written (first : Argument) (others : List Argument) (behind : Text) :
    callArguments? false (written (first :: others) ++ ')' :: behind) =
      if isShallow (first :: others) then some (written (first :: others), behind) else none := by
  induction others generalizing first with
  | nil =>
      have ended : callArguments? false (')' :: behind) = some ([], behind) := rfl
      change callArguments? false (first.text ++ ')' :: behind) = _
      rw [callArguments?_text_append, ended]
      simp [isShallow, written, join]
  | cons second others inductionHypothesis =>
      rw [written_cons_cons, List.append_assoc, List.cons_append, callArguments?_text_append,
        callArguments?_plain (by decide) (by decide), inductionHypothesis, isShallow_cons first]
      by_cases shallow : first.content.nesting ≤ 1
      · rw [if_pos (by simpa using shallow), decide_eq_true shallow, Bool.true_and]
        cases isShallow (second :: others) <;> rfl
      · rw [if_neg (by simpa using shallow), decide_eq_false shallow]
        rfl

/-- A character that does not separate arguments belongs to the first piece. -/
theorem pieces_cons {depth : Int} {c : Char} (inside : ¬(c = ',' ∧ depth = 0)) (rest : Text) :
    pieces depth (c :: rest) = (pieces (depth + bracketStep c) rest).modifyHead (c :: ·) := by
  obtain ⟨piece, more, split⟩ :=
    List.exists_cons_of_ne_nil (pieces_ne_nil (depth + bracketStep c) rest)
  rw [pieces, if_neg (by simpa using inside), split]
  rfl

/-- A balanced text belongs to one piece if its commas stand inside of brackets. -/
theorem pieces_text_append (balanced : Balanced) {depth : Int}
    (inside : 0 < depth ∨ depth = 0 ∧ balanced.isSingle = true) (rest : Text) :
    pieces depth (balanced.text ++ rest) = (pieces depth rest).modifyHead (balanced.text ++ ·) := by
  induction balanced generalizing depth rest with
  | empty =>
      obtain ⟨piece, more, split⟩ := List.exists_cons_of_ne_nil (pieces_ne_nil depth rest)
      rw [Balanced.text, List.nil_append, split]
      rfl
  | character c plain behind inductionHypothesis =>
      have apart : ¬(c = ',' ∧ depth = 0) := by
        rintro ⟨rfl, rfl⟩
        simp [Balanced.isSingle] at inside
      have others : 0 < depth ∨ depth = 0 ∧ behind.isSingle = true := by
        refine inside.imp_right fun single => ⟨single.1, ?_⟩
        simpa [Balanced.isSingle] using (Bool.and_eq_true_iff.mp single.2).2
      rw [Balanced.text, List.cons_append, pieces_cons apart, plain, Int.add_zero,
        inductionHypothesis others, List.modifyHead_modifyHead]
      rfl
  | group bracket inner behind innerHypothesis behindHypothesis =>
      have split : (Balanced.group bracket inner behind).text ++ rest =
          bracket.opening :: (inner.text ++ (bracket.closing :: (behind.text ++ rest))) := by
        simp [Balanced.text]
      have positive : 0 < depth + 1 := by omega
      have notComma : bracket.opening ≠ ',' ∧ bracket.closing ≠ ',' := by
        cases bracket <;> decide
      have steps : bracketStep bracket.opening = 1 ∧ bracketStep bracket.closing = -1 := by
        cases bracket <;> decide
      rw [split, pieces_cons fun separates => notComma.1 separates.1, steps.1,
        innerHypothesis (.inl positive), pieces_cons fun separates => notComma.2 separates.1,
        steps.2, Int.add_neg_cancel_right, behindHypothesis inside, List.modifyHead_modifyHead,
        List.modifyHead_modifyHead, List.modifyHead_modifyHead]
      congr 1
      funext piece
      simp [Balanced.text]

/-- The pieces of written arguments are the arguments. -/
theorem pieces_written (first : Argument) (others : List Argument) :
    pieces 0 (written (first :: others)) = (first :: others).map Argument.text := by
  induction others generalizing first with
  | nil =>
      have whole := pieces_text_append first.content (.inr ⟨rfl, first.single⟩) []
      rw [List.append_nil] at whole
      change pieces 0 first.text = _
      rw [whole]
      simp [pieces]
  | cons second others inductionHypothesis =>
      have separated : pieces 0 (',' :: written (second :: others)) =
          [] :: pieces 0 (written (second :: others)) := rfl
      rw [written_cons_cons, pieces_text_append first.content (.inr ⟨rfl, first.single⟩), separated,
        inductionHypothesis]
      simp

theorem splitArguments_written (first : Argument) (others : List Argument) :
    splitArguments (written (first :: others)) =
      (first :: others).map fun argument => trim argument.text := by
  have last : (((first :: others).map Argument.text).map trim).getLast? ≠ some [] := by
    intro blank
    rw [List.map_map, List.getLast?_map, Option.map_eq_some_iff] at blank
    obtain ⟨argument, -, empty⟩ := blank
    exact argument.filled empty
  rw [splitArguments, pieces_written, if_neg (by simpa using last), List.map_map]
  rfl

/-! ### Where a construction is found -/

/-- A construction names a class loader behind the word `new` and some blanks. -/
theorem exists_of_construction? {text : Text} {read : Text × Text}
    (found : construction? text = some read) :
    ∃ blanks loader rest, loader ∈ loaderNames ∧ (∀ c ∈ blanks, isBlank c = true) ∧
      text = (("new" : Text) ++ blanks) ++ (loader ++ rest) := by
  simp only [construction?, Option.bind_eq_bind, Option.bind_eq_some_iff] at found
  obtain ⟨first, isNew, second, skipped, third, named, -⟩ := found
  obtain ⟨blanks, rfl, -, blank⟩ := blanks_of_afterBlanks? skipped
  obtain ⟨loader, listed, rfl⟩ := exists_of_loaderName? named
  exact ⟨blanks, loader, third, listed, blank, by
    rw [after?_eq_some isNew, List.append_assoc]⟩

theorem construction?_of_isLoaderless {text : Text} (loaderless : isLoaderless text = true) :
    construction? text = none := by
  cases found : construction? text with
  | none => rfl
  | some read =>
      obtain ⟨blanks, loader, rest, listed, -, rfl⟩ := exists_of_construction? found
      exact absurd ⟨_, rest, by rw [List.append_assoc]⟩
        (isLoaderless_iff.mp loaderless loader listed)

theorem construction?_of_head {c : Char} (other : c ≠ 'n') (rest : Text) :
    construction? (c :: rest) = none := by
  have noWord : after? "new" (c :: rest) = none := if_neg (Ne.symm other)
  rw [construction?, noWord]
  rfl

/-- Before the word `new` no construction begins. -/
theorem construction?_before {front right rest : Text} (filled : right ≠ [])
    (inside : right <:+ front) (loaderless : isLoaderless front = true) :
    construction? (right ++ (("new " : Text) ++ rest)) = none := by
  cases found : construction? (right ++ (("new " : Text) ++ rest)) with
  | none => rfl
  | some read =>
      obtain ⟨blanks, loader, behind, listed, blank, whole⟩ := exists_of_construction? found
      have start : isLoaderless (right ++ "new ") = true :=
        isLoaderless_append_new (isLoaderless_part loaderless inside.isInfix)
      -- The name begins behind the space, so the space and the word before it are blanks.
      have passed : ∃ last, ("new" : Text) ++ blanks = right ++ (("new " : Text) ++ last) := by
        rw [← List.append_assoc] at whole
        rcases List.append_eq_append_iff.mp whole with ⟨last, same, -⟩ | ⟨last, same, named⟩
        · exact ⟨last, by rw [same, List.append_assoc]⟩
        · by_cases none : last = []
          · exact ⟨[], by rw [none, List.append_nil] at same; rw [List.append_nil, same]⟩
          · have ending := congrArg List.getLast? same
            rw [List.getLast?_append_of_ne_nil _ none,
              List.getLast?_append_of_ne_nil _ (by decide)] at ending
            have noName := loaderName?_append_of_space
              (isLoaderless_part start (same ▸ (List.suffix_append _ last).isInfix))
              ending.symm rest
            rw [← named, loaderName?_append listed] at noName
            exact absurd noName (by simp)
      obtain ⟨last, same⟩ := passed
      obtain ⟨c, right, rfl⟩ := List.exists_cons_of_ne_nil filled
      have later : 'n' ∈ ("ew" : Text) ++ blanks := by
        have tail : ("ew" : Text) ++ blanks = right ++ (("new " : Text) ++ last) :=
          (List.cons.inj same).2
        rw [tail]
        simp
      rcases List.mem_append.mp later with inWord | inBlanks
      · exact absurd inWord (by decide)
      · exact absurd (blank 'n' inBlanks) (by decide)

/-- The arguments of a construction are those of its call. -/
theorem construction?_loader {loader : Text} (listed : loader ∈ loaderNames) (text : Text) :
    construction? (("new " : Text) ++ (loader ++ '(' :: text)) = callArguments? false text := by
  rcases List.mem_pair.mp listed with rfl | rfl <;> rfl

/-! ### The two replacements -/

theorem constructionPattern_of_none {before : Option Char} {text : Text}
    (nothing : construction? text = none) : constructionPattern before text = none := by
  rw [constructionPattern, Pattern.ofReader, nothing]
  rfl

/-- A construction of a class loader as it is written. -/
def call (loader : Text) (arguments : List Argument) : Text :=
  "new " ++ (loader ++ '(' :: (written arguments ++ [')']))

theorem call_ne_nil (loader : Text) (arguments : List Argument) : call loader arguments ≠ [] := by
  unfold call
  simp

theorem call_append (loader : Text) (arguments : List Argument) (behind : Text) :
    call loader arguments ++ behind =
      ("new " : Text) ++ (loader ++ '(' :: (written arguments ++ ')' :: behind)) := by
  unfold call
  simp only [List.append_assoc, List.cons_append, List.nil_append]

section Passes

variable {front behind loader : Text} {first : Argument} {others : List Argument}
  (listed : loader ∈ loaderNames) (inFront : isLoaderless front = true)
  (inBehind : isLoaderless behind = true)

include listed in
theorem construction?_call (first : Argument) (others : List Argument) (behind : Text) :
    construction? (call loader (first :: others) ++ behind) =
      if isShallow (first :: others) then some (written (first :: others), behind) else none := by
  rw [call_append, construction?_loader listed, callArguments?_written]

include listed inBehind in
/-- Behind the first character of a construction no other one begins. -/
theorem construction?_inside {left right : Text} (filled : left ≠ [])
    (whole : call loader (first :: others) ++ behind = left ++ right) :
    construction? right = none := by
  obtain ⟨c, tail, rfl, other, noName⟩ : ∃ c tail, loader = c :: tail ∧ c ≠ 'n' ∧
      isLoaderless tail = true := by
    rcases List.mem_pair.mp listed with rfl | rfl
    · exact ⟨'D', "exClassLoader", rfl, by decide, by decide⟩
    · exact ⟨'P', "athClassLoader", rfl, by decide, by decide⟩
  have late :
      isLoaderless (tail ++ '(' :: (written (first :: others) ++ ')' :: behind)) = true := by
    rw [isLoaderless_append_cons (by decide), isLoaderless_append_cons (by decide), noName,
      isLoaderless_written, inBehind]
    rfl
  have inside : right <:+ 'e' :: 'w' :: ' ' :: c ::
      (tail ++ '(' :: (written (first :: others) ++ ')' :: behind)) := by
    obtain ⟨d, left, rfl⟩ := List.exists_cons_of_ne_nil filled
    rw [call_append] at whole
    exact ⟨left, (List.cons.inj whole).2.symm⟩
  rcases List.suffix_cons_iff.mp inside with rfl | inside
  · exact construction?_of_head (by decide) _
  rcases List.suffix_cons_iff.mp inside with rfl | inside
  · exact construction?_of_head (by decide) _
  rcases List.suffix_cons_iff.mp inside with rfl | inside
  · exact construction?_of_head (by decide) _
  rcases List.suffix_cons_iff.mp inside with rfl | inside
  · exact construction?_of_head other _
  exact construction?_of_isLoaderless (isLoaderless_part late inside.isInfix)

include listed inFront inBehind in
theorem replaceAll_construction :
    constructionPattern.replaceAll replaceConstruction
        (front ++ (call loader (first :: others) ++ behind)) =
      front ++ ((if isShallow (first :: others) then
        urlLoader ((first :: others).map fun argument => trim argument.text)
        else call loader (first :: others)) ++ behind) := by
  have kept : ∀ left right, front = left ++ right → right ≠ [] →
      constructionPattern (lastOr none left) (right ++ (call loader (first :: others) ++ behind)) =
        none := by
    intro left right whole filled
    apply constructionPattern_of_none
    rw [call_append]
    exact construction?_before filled ⟨left, whole.symm⟩ inFront
  have later (before : Option Char) : Pattern.replaceFrom constructionPattern replaceConstruction 0
      before behind = behind := by
    apply Pattern.replaceFrom_of_none
    intro left right whole
    apply constructionPattern_of_none
    exact construction?_of_isLoaderless
      (isLoaderless_part inBehind (whole ▸ (List.suffix_append left right).isInfix))
  rw [Pattern.replaceAll, Pattern.replaceFrom_keep kept]
  congr 1
  cases shallow : isShallow (first :: others) with
  | true =>
      have found : constructionPattern (lastOr none front)
          (call loader (first :: others) ++ behind) =
            some (call loader (first :: others)).length := by
        rw [constructionPattern, Pattern.ofReader, construction?_call listed, shallow]
        simp
      have again := construction?_call listed first others []
      rw [List.append_nil, shallow] at again
      rw [Pattern.replaceFrom_matched (call_ne_nil _ _) found, later, replaceConstruction, again]
      simp [splitArguments_written]
  | false =>
      apply Pattern.replaceFrom_of_none
      intro left right whole
      apply constructionPattern_of_none
      by_cases here : left = []
      · rw [here, List.nil_append] at whole
        rw [← whole, construction?_call listed, shallow]
        rfl
      · exact construction?_inside listed inBehind here whole

theorem loaderType_of_none {before : Option Char} {text : Text}
    (nothing : loaderName? text = none) :
    loaderType before text = none := by
  have inner : Pattern.atBoundary (Pattern.ofReader loaderName?) before text = none := by
    rw [Pattern.atBoundary, Pattern.ofReader, nothing]
    split <;> rfl
  rw [loaderType, Pattern.toBoundary, inner]

/-- The name of a class loader between a space and a parenthesis is a whole word. -/
theorem loaderType_append {loader : Text} (listed : loader ∈ loaderNames) (rest : Text) :
    loaderType (some ' ') (loader ++ '(' :: rest) = some loader.length := by
  have starts : isBoundary (some ' ') (loader ++ '(' :: rest).head? = true := by
    rcases List.mem_pair.mp listed with rfl | rfl <;> rfl
  have ends : isBoundary (lastOr (some ' ') loader) ('(' :: rest).head? = true := by
    rcases List.mem_pair.mp listed with rfl | rfl <;> rfl
  have inner : Pattern.atBoundary (Pattern.ofReader loaderName?) (some ' ')
      (loader ++ '(' :: rest) = some loader.length := by
    rw [Pattern.atBoundary, if_pos starts, Pattern.ofReader, loaderName?_append listed,
      Option.map_some, List.length_append, Nat.add_sub_cancel]
  rw [loaderType, Pattern.toBoundary, inner]
  dsimp only
  rw [List.take_left, List.drop_left, if_pos ends]

theorem replaceAll_loaderType_of_isLoaderless {before : Option Char} {text : Text}
    (loaderless : isLoaderless text = true) (replacement : Text → Text) :
    Pattern.replaceFrom loaderType replacement 0 before text = text := by
  apply Pattern.replaceFrom_of_none
  intro left right whole
  apply loaderType_of_none
  exact loaderName?_of_isLoaderless
    (isLoaderless_part loaderless (whole ▸ (List.suffix_append left right).isInfix))

include listed inFront inBehind in
/-- The name of the class loader in a construction is replaced by itself. -/
theorem replaceAll_loaderType_call :
    loaderType.replaceAll (fun _ => "java.net.URLClassLoader")
        (front ++ (call loader (first :: others) ++ behind)) =
      front ++ (call "java.net.URLClassLoader" (first :: others) ++ behind) := by
  have late : isLoaderless ('(' :: (written (first :: others) ++ ')' :: behind)) = true := by
    rw [isLoaderless_cons (by decide), isLoaderless_append_cons (by decide), isLoaderless_written,
      inBehind]
    rfl
  have split (name : Text) : front ++ (call name (first :: others) ++ behind) =
      (front ++ "new ") ++ (name ++ '(' :: (written (first :: others) ++ ')' :: behind)) := by
    rw [call_append, List.append_assoc]
  have kept : ∀ left right, front ++ ("new " : Text) = left ++ right → right ≠ [] →
      loaderType (lastOr none left)
        (right ++ (loader ++ '(' :: (written (first :: others) ++ ')' :: behind))) = none := by
    intro left right whole filled
    have ending := congrArg List.getLast? whole
    rw [List.getLast?_append_of_ne_nil _ (by decide),
      List.getLast?_append_of_ne_nil _ filled] at ending
    apply loaderType_of_none
    exact loaderName?_append_of_space (isLoaderless_part (isLoaderless_append_new inFront)
      (whole ▸ (List.suffix_append left right).isInfix)) ending.symm _
  have last : lastOr none (front ++ ("new " : Text)) = some ' ' := by
    rw [Pattern.lastOr_append]
    rfl
  rw [split, split, Pattern.replaceAll, Pattern.replaceFrom_keep kept, last,
    Pattern.replaceFrom_matched ?_ (loaderType_append listed _),
    replaceAll_loaderType_of_isLoaderless late]
  rcases List.mem_pair.mp listed with rfl | rfl <;> decide

end Passes

/-! ### Constructions with any arguments -/

/-- The parent of a class loader: the last argument behind the path, or the class loader of the
system if there is none. -/
def parent (others : List Argument) : Text :=
  match others.getLast? with
  | some last => trim last.text
  | none => "ClassLoader.getSystemClassLoader()"

theorem urlLoader_arguments (first : Argument) (others : List Argument) :
    urlLoader ((first :: others).map fun argument => trim argument.text) =
      "new java.net.URLClassLoader(new java.net.URL[] \x7b new java.io.File(" ++ trim first.text ++
        ").toURI().toURL() \x7d, " ++ parent others ++ ")" := by
  have last : (if ((first :: others).map fun argument => trim argument.text).length > 1 then
      ((first :: others).map fun argument => trim argument.text).getLast?.getD "null"
      else "ClassLoader.getSystemClassLoader()") = parent others := by
    cases others with
    | nil => rfl
    | cons second others =>
        obtain ⟨argument, found⟩ : ∃ argument, (second :: others).getLast? = some argument :=
          ⟨_, List.getLast?_eq_some_getLast (List.cons_ne_nil second others)⟩
        rw [if_pos (by simp), parent, found, List.getLast?_map, List.getLast?_cons_cons, found]
        rfl
  unfold urlLoader
  rw [last, List.map_cons, List.head?_cons, Option.getD_some]

theorem trim_isInfix (text : Text) : trim text <:+: text := by
  have front : trimEnd (trimStart text) <+: trimStart text := by
    have back := List.reverse_prefix.mpr
      (List.dropWhile_suffix (l := (trimStart text).reverse) isBlank)
    rwa [List.reverse_reverse] at back
  exact front.isInfix.trans (trimStart_suffix text).isInfix

theorem isLoaderless_parent (others : List Argument) : isLoaderless (parent others) = true := by
  unfold parent
  split
  · rename_i last _
    exact isLoaderless_part last.loaderless (trim_isInfix last.text)
  · decide +kernel

/-- The construction that comes in names no class loader of the platform. -/
theorem isLoaderless_urlLoader {front behind : Text} (inFront : isLoaderless front = true)
    (inBehind : isLoaderless behind = true) (first : Argument) (others : List Argument) :
    isLoaderless (front ++ (urlLoader ((first :: others).map fun argument => trim argument.text) ++
      behind)) = true := by
  have split : front ++ (urlLoader ((first :: others).map fun argument => trim argument.text) ++
      behind) = (front ++ ("new" : Text)) ++ ' ' ::
        (("java.net.URLClassLoader(new java.net.URL[] \x7b new java.io.File" : Text) ++ '(' ::
          (trim first.text ++ ')' :: ((".toURI().toURL() \x7d," : Text) ++ ' ' ::
            (parent others ++ ')' :: behind)))) := by
    rw [urlLoader_arguments]
    simp
  have start : isLoaderless (front ++ ("new" : Text)) = true :=
    isLoaderless_part (isLoaderless_append_new inFront) ⟨[], [' '], by simp⟩
  have path := isLoaderless_part first.loaderless (trim_isInfix first.text)
  have constants : isLoaderless "java.net.URLClassLoader(new java.net.URL[] \x7b new java.io.File" =
      true ∧ isLoaderless ".toURI().toURL() \x7d," = true := by decide +kernel
  rw [split, isLoaderless_append_cons (by decide), isLoaderless_append_cons (by decide),
    isLoaderless_append_cons (by decide), isLoaderless_append_cons (by decide),
    isLoaderless_append_cons (by decide), start, constants.1, path, constants.2,
    isLoaderless_parent, inBehind]
  rfl

/-- A construction of a class loader with shallow arguments becomes the construction of a loader
over its first argument, with its last argument as the parent. If an argument nests parentheses more
than once, just the name of the class loader is replaced. -/
theorem classLoader_construction {front behind loader : Text} {first : Argument}
    {others : List Argument} (listed : loader ∈ loaderNames) (inFront : isLoaderless front = true)
    (inBehind : isLoaderless behind = true) :
    classLoader (front ++ (call loader (first :: others) ++ behind)) =
      if isShallow (first :: others) then
        front ++ ("new java.net.URLClassLoader(new java.net.URL[] \x7b new java.io.File(" ++
          trim first.text ++ ").toURI().toURL() \x7d, " ++ parent others ++ ")" ++ behind)
      else front ++ (call "java.net.URLClassLoader" (first :: others) ++ behind) := by
  rw [classLoader, replaceAll_construction listed inFront inBehind]
  cases isShallow (first :: others) with
  | true =>
      have kept := isLoaderless_urlLoader inFront inBehind first others
      simp only [if_true]
      rw [Pattern.replaceAll, replaceAll_loaderType_of_isLoaderless kept, urlLoader_arguments]
  | false => exact replaceAll_loaderType_call listed inFront inBehind

/-- The argument `f(a,b)`. -/
def flatArgument : Argument where
  content := .character 'f' rfl (.group .round
    (.character 'a' rfl (.character ',' rfl (.character 'b' rfl .empty))) .empty)
  single := rfl
  filled := by decide
  loaderless := by decide

/-- The argument ` x[{1,2}]`. -/
def literalArgument : Argument where
  content := .character ' ' rfl (.character 'x' rfl (.group .square
    (.group .curly (.character '1' rfl (.character ',' rfl (.character '2' rfl .empty))) .empty)
    .empty))
  single := rfl
  filled := by decide
  loaderless := by decide

/-- The argument `f(g(a))`. -/
def nestedArgument : Argument where
  content := .character 'f' rfl (.group .round
    (.character 'g' rfl (.group .round (.character 'a' rfl .empty) .empty)) .empty)
  single := rfl
  filled := by decide
  loaderless := by decide

theorem classLoader_construction_flat :
    ("DexClassLoader" : Text) ∈ loaderNames ∧ isLoaderless "l = " = true ∧
      isLoaderless ";" = true ∧
      classLoader "l = new DexClassLoader(f(a,b), x[\x7b1,2\x7d]);" =
        ("l = new java.net.URLClassLoader(new java.net.URL[] \x7b new java.io.File(f(a,b))" ++
          ".toURI().toURL() \x7d, x[\x7b1,2\x7d]);" : Text) := by
  have listed : ("DexClassLoader" : Text) ∈ loaderNames := by decide
  have inFront : isLoaderless "l = " = true := by decide
  have inBehind : isLoaderless ";" = true := by decide
  have shape : ("l = new DexClassLoader(f(a,b), x[\x7b1,2\x7d]);" : Text) =
      "l = " ++ (call "DexClassLoader" [flatArgument, literalArgument] ++ ";") := by decide +kernel
  refine ⟨listed, inFront, inBehind, ?_⟩
  rw [shape, classLoader_construction listed inFront inBehind]
  decide +kernel

/-- The end of a call is not found behind parentheses that are nested twice. -/
theorem classLoader_nestedArgument :
    nestedArgument.text = "f(g(a))" ∧
      classLoader "l = new DexClassLoader(f(g(a)), p);" =
        "l = new java.net.URLClassLoader(f(g(a)), p);" ∧
      classLoader "l = new DexClassLoader(f(g(a)), p);" ≠
        ("l = new java.net.URLClassLoader(new java.net.URL[] \x7b new java.io.File(f(g(a)))" ++
          ".toURI().toURL() \x7d, p);" : Text) := by
  decide +kernel

end Unpacking.Substitution
