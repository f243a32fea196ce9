import Unpacking.Proofs.Line.Signature
import Unpacking.Proofs.Reflection.Term
import Unpacking.Proofs.Text.Items

/-!
The parts of a line that declares a method: blanks and annotations, modifiers, type parameters, the
return type. A modifier that is put before the return type is read as one more modifier, unless
type parameters stand before it: then the line declares no method.
-/

namespace Unpacking.Signature

open Text

/-! ### Items before the return type -/

theorem isBlank_of_isLower {c : Char} (lower : c.isLower = true) : isBlank c = false := by
  change (decide (97 ≤ c.val) && decide (c.val ≤ 122)) = true at lower
  simp only [Bool.and_eq_true, decide_eq_true_eq, UInt32.le_iff_toNat_le] at lower
  change 97 ≤ c.toNat ∧ c.toNat ≤ 122 at lower
  simp only [isBlank, Bool.or_eq_false_iff, Bool.and_eq_false_iff, decide_eq_false_iff_not,
    beq_eq_false_iff_ne]
  omega

theorem head_of_blanks {blanks rest : Text} (filled : blanks ≠ [])
    (blank : ∀ c ∈ blanks, isBlank c = true) {c : Char} (first : (blanks ++ rest).head? = some c) :
    isBlank c = true := by
  obtain ⟨d, blanks, rfl⟩ := List.exists_cons_of_ne_nil filled
  rw [List.cons_append, List.head?_cons, Option.some.injEq] at first
  exact blank c (by simp [first])

/-- A lower-case word with the blanks behind it. -/
theorem lowerWord?_eq_some_iff {text word rest : Text} :
    lowerWord? text = some (word, rest) ↔
      ∃ blanks, text = word ++ (blanks ++ rest) ∧ word ≠ [] ∧ (∀ c ∈ word, c.isLower = true) ∧
        blanks ≠ [] ∧ (∀ c ∈ blanks, isBlank c = true) ∧ IsFlush rest := by
  constructor
  · intro read
    simp only [lowerWord?, Option.bind_eq_bind, Option.bind_eq_some_iff, Option.pure_def,
      Option.some.injEq, Prod.mk.injEq, Prod.exists] at read
    obtain ⟨word, behind, taken, rest, spaced, rfl, rfl⟩ := read
    obtain ⟨rfl, filled, lower⟩ := run?_eq_some taken
    obtain ⟨blanks, rfl, blankFilled, blank, flush⟩ := afterBlanks?_eq_some_iff.mp spaced
    exact ⟨blanks, rfl, filled, lower, blankFilled, blank, flush⟩
  · rintro ⟨blanks, rfl, filled, lower, blankFilled, blank, flush⟩
    have stops (c : Char) (first : (blanks ++ rest).head? = some c) : c.isLower = false := by
      rw [Bool.eq_false_iff]
      intro inWord
      have spaced := head_of_blanks blankFilled blank first
      rw [isBlank_of_isLower inWord] at spaced
      exact absurd spaced (by decide)
    simp only [lowerWord?, Option.bind_eq_bind]
    rw [run?_append filled lower stops]
    simp only [Option.bind_some]
    rw [afterBlanks?_eq_some_iff.mpr ⟨blanks, rfl, blankFilled, blank, flush⟩]
    rfl

theorem isSteady_lowerWord? : IsSteady lowerWord? := by
  intro text word rest read
  obtain ⟨blanks, rfl, filled, lower, blankFilled, blank, flush⟩ := lowerWord?_eq_some_iff.mp read
  refine ⟨flush, word ++ blanks, (List.append_assoc _ _ _).symm, ?_, fun other flushOther => ?_⟩
  · have inside := lower _ (List.getLast_mem filled)
    refine ⟨word.getLast filled, ?_, isBlank_of_isLower inside, word, blanks, rfl,
      List.getLast?_eq_getLast_of_ne_nil filled, blank⟩
    intro closing
    rw [closing] at inside
    exact absurd inside (by decide)
  · exact lowerWord?_eq_some_iff.mpr
      ⟨blanks, List.append_assoc _ _ _, filled, lower, blankFilled, blank, flushOther⟩

theorem stops_of_isBlank {c : Char} (blank : isBlank c = true) :
    (isWord c || c == '.') = false := by
  have outside := Reflection.isNameCharacter_of_isBlank blank
  simp only [isNameCharacter, Bool.or_eq_false_iff] at outside
  rw [outside.1, Bool.false_or, beq_eq_false_iff_ne]
  rintro rfl
  exact absurd blank (by decide)

/-- An annotation: its name, and perhaps its arguments. -/
theorem annotation?_eq_some_iff {text rest : Text} :
    annotation? text = some ((), rest) ↔
      ∃ name given blanks, text = '@' :: (name ++ (given ++ (blanks ++ rest))) ∧ name ≠ [] ∧
        (∀ c ∈ name, (isWord c || c == '.') = true) ∧
        (given = [] ∨ ∃ inner, given = '(' :: inner ++ [')'] ∧ ')' ∉ inner) ∧
        blanks ≠ [] ∧ (∀ c ∈ blanks, isBlank c = true) ∧ IsFlush rest := by
  constructor
  · intro read
    simp only [annotation?, Option.bind_eq_bind, Option.bind_eq_some_iff, Option.pure_def,
      Option.some.injEq, Prod.mk.injEq, Prod.exists, true_and] at read
    obtain ⟨behind, sign, name, more, taken, rest, spaced, rfl⟩ := read
    obtain ⟨rfl, filled, members⟩ := run?_eq_some taken
    obtain ⟨blanks, whole, blankFilled, blank, flush⟩ := afterBlanks?_eq_some_iff.mp spaced
    have given : ∃ given, more = given ++ (blanks ++ rest) ∧
        (given = [] ∨ ∃ inner, given = '(' :: inner ++ [')'] ∧ ')' ∉ inner) := by
      rw [← whole]
      unfold afterArguments
      split
      · rename_i inner
        split
        · rename_i left right found
          refine ⟨'(' :: left ++ [')'], ?_, .inr ⟨left, rfl, not_mem_of_cut? found⟩⟩
          rw [cut?_eq_some found]
          simp
        · exact ⟨[], rfl, .inl rfl⟩
      · exact ⟨[], rfl, .inl rfl⟩
    obtain ⟨given, rfl, shape⟩ := given
    rw [after?_eq_some sign]
    exact ⟨name, given, blanks, rfl, filled, members, shape, blankFilled, blank, flush⟩
  · rintro ⟨name, given, blanks, rfl, filled, members, shape, blankFilled, blank, flush⟩
    have stops (c : Char) (first : (given ++ (blanks ++ rest)).head? = some c) :
        (isWord c || c == '.') = false := by
      rcases shape with rfl | ⟨inner, rfl, -⟩
      · exact stops_of_isBlank (head_of_blanks blankFilled blank first)
      · rw [← Option.some.inj first]
        decide
    have arguments : afterArguments (given ++ (blanks ++ rest)) = blanks ++ rest := by
      rcases shape with rfl | ⟨inner, rfl, free⟩
      · obtain ⟨c, blanks, rfl⟩ := List.exists_cons_of_ne_nil blankFilled
        have other : c ≠ '(' := by
          rintro rfl
          exact absurd (blank '(' (by simp)) (by decide)
        simp [afterArguments, other]
      · have found := cut?_append free (blanks ++ rest)
        simp [afterArguments, found]
    have sign (behind : Text) : after? ['@'] ('@' :: behind) = some behind := after?_append ['@'] behind
    simp only [annotation?, Option.bind_eq_bind, sign, Option.bind_some]
    rw [run?_append filled members stops]
    simp only [Option.bind_some, arguments]
    rw [afterBlanks?_eq_some_iff.mpr ⟨blanks, rfl, blankFilled, blank, flush⟩]
    rfl

theorem isSteady_annotation? : IsSteady annotation? := by
  rintro text ⟨⟩ rest read
  obtain ⟨name, given, blanks, rfl, filled, members, shape, blankFilled, blank, flush⟩ :=
    annotation?_eq_some_iff.mp read
  refine ⟨flush, '@' :: (name ++ (given ++ blanks)), by simp, ?_, fun other flushOther => ?_⟩
  · rcases shape with rfl | ⟨inner, rfl, -⟩
    · have inside := members _ (List.getLast_mem filled)
      refine ⟨name.getLast filled, ?_, ?_, '@' :: name, blanks, by simp, ?_, blank⟩
      · intro closing
        rw [closing] at inside
        exact absurd inside (by decide)
      · rw [Bool.eq_false_iff]
        intro spaced
        rw [stops_of_isBlank spaced] at inside
        exact absurd inside (by decide)
      · rw [List.getLast?_cons_of_ne_nil filled, List.getLast?_eq_getLast_of_ne_nil filled]
    · exact ⟨')', by decide, by decide, ('@' :: (name ++ '(' :: inner)) ++ [')'], blanks, by simp,
        List.getLast?_concat, blank⟩
  · exact annotation?_eq_some_iff.mpr ⟨name, given, blanks, by simp, filled, members, shape,
      blankFilled, blank, flushOther⟩

theorem annotation?_of_head {text : Text} (other : text.head? ≠ some '@') :
    annotation? text = none := by
  cases read : annotation? text with
  | none => rfl
  | some found =>
      obtain ⟨name, given, blanks, rfl, -⟩ := annotation?_eq_some_iff.mp read
      exact absurd rfl other

/-! ### Words that are not followed by a call -/

/-- A text that does not begin with a name and a parenthesis. -/
def IsNoCall (text : Text) : Prop :=
  ∀ name rest, run? isNameCharacter text = some (name, rest) →
    (trimStart rest).head? ≠ some '('

theorem isNameCharacter_of_isLower {c : Char} (lower : c.isLower = true) :
    isNameCharacter c = true := by
  apply Reflection.isNameCharacter_of_isVariableCharacter
  have isAlpha : c.isAlpha = true := by
    change (c.isUpper || c.isLower) = true
    rw [lower, Bool.or_true]
  simp [Reflection.isVariableCharacter, Char.isAlphanum, isAlpha]

/-- A lower-case word before blanks is a type without arguments. -/
theorem typed?_word {α : Type} {word blanks rest : Text} (filled : word ≠ [])
    (lower : ∀ c ∈ word, c.isLower = true) (blankFilled : blanks ≠ [])
    (blank : ∀ c ∈ blanks, isBlank c = true) (allowed : Char → Bool) (reader : Text → Option α) :
    typed? allowed reader (word ++ (blanks ++ rest)) =
      (reader (blanks ++ rest)).map fun found => (word, found) := by
  have members : ∀ c ∈ word, (isNameCharacter c || c == '.') = true :=
    fun c member => by rw [isNameCharacter_of_isLower (lower c member), Bool.true_or]
  have stops (c : Char) (first : (blanks ++ rest).head? = some c) :
      (isNameCharacter c || c == '.') = false := by
    have spaced := head_of_blanks blankFilled blank first
    rw [Reflection.isNameCharacter_of_isBlank spaced]
    exact (Bool.or_eq_false_iff.mp (stops_of_isBlank spaced)).2
  obtain ⟨c, blanks, rfl⟩ := List.exists_cons_of_ne_nil blankFilled
  have spaced := blank c (by simp)
  have angle : c ≠ '<' := by
    rintro rfl
    exact absurd spaced (by decide)
  have bracket : c ≠ '[' := by
    rintro rfl
    exact absurd spaced (by decide)
  have behind : afterBrackets (c :: (blanks ++ rest)) = c :: (blanks ++ rest) := by
    rw [afterBrackets]
    simp [bracket]
  rw [typed?_eq, run?_append filled members stops, Option.bind_some]
  simp [argumentWays, angle, behind]

/-- A lower-case word before something that is no call is no type of a method. -/
theorem typed?_of_word {word blanks rest : Text} (filled : word ≠ [])
    (lower : ∀ c ∈ word, c.isLower = true) (blankFilled : blanks ≠ [])
    (blank : ∀ c ∈ blanks, isBlank c = true) (flush : IsFlush rest) (noCall : IsNoCall rest)
    (allowed : Char → Bool) : typed? allowed methodName? (word ++ (blanks ++ rest)) = none := by
  have nameless : methodName? (blanks ++ rest) = none := by
    simp only [methodName?, Option.bind_eq_bind]
    rw [afterBlanks?_eq_some_iff.mpr ⟨blanks, rfl, blankFilled, blank, flush⟩, Option.bind_some]
    cases taken : run? isNameCharacter rest with
    | none => rfl
    | some found =>
        have other := noCall found.1 found.2 taken
        simp only [Option.bind_some]
        cases opened : after? ['('] (trimStart found.2) with
        | none => rfl
        | some inner =>
            rw [after?_eq_some opened] at other
            exact absurd rfl other
  rw [typed?_word filled lower blankFilled blank, nameless]
  rfl

/-- What stands behind a name that may hold dots, seen from the first part of the name. -/
theorem dropWhile_name {base : Text}
    (members : ∀ c ∈ base, (isNameCharacter c || c == '.') = true) {rest : Text}
    (stops : ∀ c, rest.head? = some c → isNameCharacter c = false) :
    (base ++ rest).dropWhile isNameCharacter = rest ∨
      ∃ tail, (base ++ rest).dropWhile isNameCharacter = '.' :: tail := by
  induction base with
  | nil =>
      left
      cases rest with
      | nil => rfl
      | cons c rest => simp [stops c rfl]
  | cons c base inductionHypothesis =>
      rw [List.cons_append, List.dropWhile_cons]
      split
      · exact inductionHypothesis fun d member => members d (by simp [member])
      · rename_i outside
        have dot := members c (by simp)
        simp only [outside, Bool.false_or, beq_iff_eq] at dot
        exact .inr ⟨base ++ rest, by rw [dot]⟩

theorem head?_trimStart_cons {c : Char} (solid : isBlank c = false) (text : Text) :
    (trimStart (c :: text)).head? = some c := by
  simp [trimStart, solid]

theorem head?_of_methodName? {text name : Text} (named : methodName? text = some name) :
    (trimStart text).head? ≠ some '(' := by
  simp only [methodName?, Option.bind_eq_bind, Option.bind_eq_some_iff, Option.pure_def,
    Option.some.injEq, Prod.exists] at named
  obtain ⟨behind, spaced, name, rest, taken, -⟩ := named
  obtain ⟨blanks, rfl, -, blank, flush⟩ := afterBlanks?_eq_some_iff.mp spaced
  obtain ⟨rfl, filled, members⟩ := run?_eq_some taken
  obtain ⟨c, name, rfl⟩ := List.exists_cons_of_ne_nil filled
  rw [trimStart_append blank flush]
  intro first
  have inName := members c (by simp)
  rw [Option.some.inj first] at inName
  exact absurd inName (by decide)

/-- Where a type and a name of a method are read, there is no call. -/
theorem isNoCall_of_typed? {allowed : Char → Bool} {text : Text} {found : Text × Text}
    (typed : typed? allowed methodName? text = some found) : IsNoCall text := by
  rw [typed?_eq, Option.bind_eq_some_iff] at typed
  obtain ⟨⟨base, rest⟩, taken, typed⟩ := typed
  obtain ⟨way, member, named⟩ := List.exists_of_findSome?_eq_some typed
  obtain ⟨name, named, -⟩ := Option.map_eq_some_iff.mp named
  obtain ⟨rfl, filled, members⟩ := run?_eq_some taken
  have stops (c : Char) (first : rest.head? = some c) : isNameCharacter c = false := by
    have dropped := dropWhile_of_run? taken
    have outside := List.head?_dropWhile_not (fun c => isNameCharacter c || c == '.') (base ++ rest)
    rw [dropped, first] at outside
    exact (Bool.or_eq_false_iff.mp outside).1
  -- Type arguments and brackets come before the blanks, a name behind them.
  have behind : (trimStart rest).head? ≠ some '(' := by
    dsimp only [argumentWays] at member
    split at member
    · rw [head?_trimStart_cons (by decide)]
      decide
    · rw [List.mem_singleton] at member
      subst member
      dsimp only at named
      unfold afterBrackets at named
      split at named
      · rw [head?_trimStart_cons (by decide)]
        decide
      · exact head?_of_methodName? named
  intro front tail run
  rw [← dropWhile_of_run? run]
  rcases dropWhile_name members stops with same | ⟨tail, same⟩
  · rw [same]
    exact behind
  · rw [same, head?_trimStart_cons (by decide)]
    decide

/-! ### The parts of a line before the return type -/

/-- A list of type parameters with the blanks behind it. -/
def IsParameterList (text : Text) : Prop :=
  ∃ inner blanks, text = '<' :: (inner ++ '>' :: blanks) ∧ '>' ∉ inner ∧ blanks ≠ [] ∧
    ∀ c ∈ blanks, isBlank c = true

theorem afterTypeParameters_append {generic rest : Text} (list : IsParameterList generic)
    (flush : IsFlush rest) : afterTypeParameters (generic ++ rest) = rest := by
  obtain ⟨inner, blanks, rfl, free, filled, blank⟩ := list
  have found := cut?_append free (blanks ++ rest)
  have spaced := afterBlanks?_eq_some_iff.mpr ⟨blanks, rfl, filled, blank, flush⟩
  simp [afterTypeParameters, found, spaced]

theorem afterTypeParameters_cases (text : Text) :
    afterTypeParameters text = text ∨
      ∃ generic, IsParameterList generic ∧ text = generic ++ afterTypeParameters text := by
  unfold afterTypeParameters
  split
  · rename_i inner
    split
    · rename_i left right found
      cases spaced : afterBlanks? right with
      | none => exact .inl rfl
      | some rest =>
          obtain ⟨blanks, rfl, filled, blank, -⟩ := afterBlanks?_eq_some_iff.mp spaced
          refine .inr ⟨'<' :: (left ++ '>' :: blanks), ⟨left, blanks, rfl, not_mem_of_cut? found,
            filled, blank⟩, ?_⟩
          rw [cut?_eq_some found]
          simp
    · exact .inl rfl
  · exact .inl rfl

theorem afterTypeParameters_word {word rest : Text} (filled : word ≠ [])
    (lower : ∀ c ∈ word, c.isLower = true) : afterTypeParameters (word ++ rest) = word ++ rest := by
  obtain ⟨c, word, rfl⟩ := List.exists_cons_of_ne_nil filled
  have angle : c ≠ '<' := by
    rintro rfl
    exact absurd (lower '<' (by simp)) (by decide)
  simp [afterTypeParameters, angle]

/-- A return type does not begin with a blank. -/
theorem isFlush_of_typed? {α : Type} {allowed : Char → Bool} {reader : Text → Option α} {text : Text}
    {found : Text × α} (typed : typed? allowed reader text = some found) : IsFlush text := by
  intro c first
  rw [Bool.eq_false_iff]
  intro blank
  obtain ⟨rest, rfl⟩ := List.head?_eq_some_iff.mp first
  have outside : (isNameCharacter c || c == '.') = false := by
    rw [Reflection.isNameCharacter_of_isBlank blank]
    exact (Bool.or_eq_false_iff.mp (stops_of_isBlank blank)).2
  rw [typed?_of_head outside] at typed
  simp at typed

/-- A return type is not read as a list of type parameters. -/
theorem declared?_of_typed? {text type name : Text}
    (typed : typed? (fun c => c != '\n') methodName? text = some (type, name)) :
    declared? text = some (text, type, name) := by
  have unchanged : afterTypeParameters text = text := by
    cases text with
    | nil => rfl
    | cons c text =>
        by_cases angle : c = '<'
        · rw [angle, typed?_of_head (by decide)] at typed
          simp at typed
        · simp [afterTypeParameters, angle]
  rw [declared?, unchanged, typed]
  rfl

/-- Where the words before something that is no call end, there is no declaration, and none of the
words is a type. -/
theorem declared?_of_reads {text rest : Text} {words : List Text}
    (reads : Reads lowerWord? text words rest) (stop : lowerWord? rest = none)
    (nothing : declared? rest = none) (noCall : IsNoCall rest) (closed : rest.head? ≠ some '(') :
    IsNoCall text ∧ text.head? ≠ some '(' ∧
      ∀ others last, Reads lowerWord? text others last → declared? last = none := by
  induction reads with
  | done text =>
      refine ⟨noCall, closed, fun others last further => ?_⟩
      cases further with
      | done => exact nothing
      | more read _ => simp [stop] at read
  | @more text next rest word words read _ inductionHypothesis =>
      obtain ⟨noCallNext, closedNext, later⟩ := inductionHypothesis stop nothing noCall closed
      obtain ⟨blanks, rfl, filled, lower, blankFilled, blank, flush⟩ :=
        lowerWord?_eq_some_iff.mp read
      have inName (c : Char) (member : c ∈ word) := isNameCharacter_of_isLower (lower c member)
      have stops (c : Char) (first : (blanks ++ next).head? = some c) : isNameCharacter c = false :=
        Reflection.isNameCharacter_of_isBlank (head_of_blanks blankFilled blank first)
      have taken := run?_append filled inName stops
      refine ⟨?_, ?_, fun others last further => ?_⟩
      · intro name behind run
        obtain ⟨-, rfl⟩ := Prod.mk.inj (Option.some.inj (taken.symm.trans run))
        rw [trimStart_append blank flush]
        exact closedNext
      · obtain ⟨c, word, rfl⟩ := List.exists_cons_of_ne_nil filled
        intro first
        have inside := lower c (by simp)
        rw [Option.some.inj first] at inside
        exact absurd inside (by decide)
      · cases further with
        | done =>
            rw [declared?, afterTypeParameters_word filled lower,
              typed?_of_word filled lower blankFilled blank flush noCallNext]
            rfl
        | more again further =>
            obtain ⟨-, rfl⟩ := Prod.mk.inj (Option.some.inj (read.symm.trans again))
            exact later _ _ further

/-- The parts of a line before the return type: blanks and annotations, modifiers, type parameters.
No further word of the line is a modifier. -/
structure IsLayout (line : Line) (found : Beginning) (front lead generic : Text) : Prop where
  whole : line = front ++ (lead ++ (generic ++ found.fromType))
  begun : ∀ text, IsFlush text → annotation? text = none →
    beginning? (front ++ text) = behindAnnotations? text
  plain : ends ['>'] (trimEnd front) = false
  flush : IsFlush (lead ++ (generic ++ found.fromType))
  words : IsChain lowerWord? lead found.modifiers
  shape : generic = [] ∨ IsParameterList generic
  typed : typed? (fun c => c != '\n') methodName? found.fromType = some (found.type, found.name)
  longest : ∀ others last, others ≠ [] → Reads lowerWord? (generic ++ found.fromType) others last →
    declared? last = none

/-- Blanks and annotations are read in the same way whatever comes behind them. -/
theorem exists_front (line : Line) :
    ∃ front, line = front ++ afterItems annotation? (trimStart line) ∧
      IsFlush (afterItems annotation? (trimStart line)) ∧
      ends ['>'] (trimEnd front) = false ∧
      ∀ text, IsFlush text → annotation? text = none →
        beginning? (front ++ text) = behindAnnotations? text := by
  obtain ⟨items, reads, -⟩ :=
    (afterItems_eq_iff shrinks_annotation?).mp (rfl : _ = afterItems annotation? (trimStart line))
  have flushStart := isFlush_trimStart line
  obtain ⟨flush, part, whole, chain⟩ := reads.exists_isChain isSteady_annotation? flushStart
  have blank (c : Char) (member : c ∈ indentation line) : isBlank c = true :=
    List.mem_takeWhile_imp member
  refine ⟨indentation line ++ part, ?_, flush, ?_, fun text flushText stop => ?_⟩
  · rw [List.append_assoc, ← whole]
    exact List.takeWhile_append_dropWhile.symm
  · by_cases none : items = []
    · rw [chain.nothing none, List.append_nil, trimEnd, List.dropWhile_eq_nil_iff.mpr (by simpa using blank)]
      rfl
    · obtain ⟨c, other, solid⟩ := chain.solid none
      rw [(solid.append (indentation line)).ends_trimEnd]
      simpa using other
  · have flushParts : IsFlush (part ++ text) := by
      rw [whole] at flushStart
      exact flushStart.replace flushText
    have read : afterItems annotation? (part ++ text) = text :=
      (afterItems_eq_iff shrinks_annotation?).mpr ⟨items, chain.reads text flushText, stop⟩
    rw [beginning?_eq, List.append_assoc, trimStart_append blank flushParts, read]

theorem exists_isLayout {line : Line} {found : Beginning} (begun : beginning? line = some found) :
    ∃ front lead generic, IsLayout line found front lead generic := by
  obtain ⟨front, whole, flush, plain, again⟩ := exists_front line
  rw [beginning?_eq, behindAnnotations?, findSome?_repeats_eq_some_iff shrinks_lowerWord?] at begun
  obtain ⟨modifiers, rest, reads, here, longest⟩ := begun
  obtain ⟨⟨fromType, type, name⟩, declared, rfl⟩ := Option.map_eq_some_iff.mp here
  obtain ⟨⟨type, name⟩, typed, same⟩ := Option.map_eq_some_iff.mp declared
  obtain ⟨flushRest, lead, parts, chain⟩ := reads.exists_isChain isSteady_lowerWord? flush
  simp only [Prod.mk.injEq] at same
  obtain ⟨rfl, rfl, rfl⟩ := same
  have generic : ∃ generic, rest = generic ++ afterTypeParameters rest ∧
      (generic = [] ∨ IsParameterList generic) := by
    rcases afterTypeParameters_cases rest with same | ⟨generic, list, same⟩
    · exact ⟨[], same.symm, .inl rfl⟩
    · exact ⟨generic, same, .inr list⟩
  obtain ⟨generic, split, shape⟩ := generic
  rw [parts] at whole flush
  refine ⟨front, lead, generic, ?_, again, plain, ?_, chain, shape, typed, ?_⟩
  · rw [← split]
    exact whole
  · rw [← split]
    exact flush
  · intro others last filled further
    rw [← split] at further
    have nothing := longest others last filled further
    rwa [Option.map_eq_none_iff] at nothing

/-- A beginning with the modifier `static` behind its modifiers. -/
def Beginning.withStatic (found : Beginning) : Beginning :=
  { found with modifiers := found.modifiers ++ [("static" : Text)] }

namespace IsLayout

variable {line : Line} {found : Beginning} {front lead generic : Text}

theorem flush_fromType (layout : IsLayout line found front lead generic) :
    IsFlush found.fromType :=
  isFlush_of_typed? layout.typed

/-- The return type stands behind type parameters if the text before it ends with their bracket. -/
theorem ends_head (layout : IsLayout line found front lead generic) :
    ends ['>'] (trimEnd (front ++ (lead ++ generic))) = !generic.isEmpty := by
  rcases layout.shape with rfl | ⟨inner, blanks, rfl, -, -, blank⟩
  · rw [List.append_nil]
    by_cases none : found.modifiers = []
    · rw [layout.words.nothing none, List.append_nil, layout.plain]
      rfl
    · obtain ⟨c, other, solid⟩ := layout.words.solid none
      rw [(solid.append front).ends_trimEnd]
      simpa using other
  · have solid : EndsSolid ('<' :: (inner ++ '>' :: blanks)) '>' :=
      ⟨by decide, ('<' :: inner) ++ ['>'], blanks, by simp, List.getLast?_concat, blank⟩
    rw [((solid.append lead).append front).ends_trimEnd]
    rfl

theorem isFlush_static (text : Text) : IsFlush (("static " : Text) ++ text) := by
  intro c first
  rw [← Option.some.inj first]
  decide

/-- The modifier `static` before the return type is read as one more modifier. -/
theorem beginning?_static (layout : IsLayout line found front lead []) :
    beginning? (front ++ (lead ++ (("static " : Text) ++ found.fromType))) =
      some found.withStatic := by
  have word : lowerWord? (("static " : Text) ++ found.fromType) =
      some ("static".toList, found.fromType) :=
    lowerWord?_eq_some_iff.mpr
      ⟨[' '], rfl, by decide, List.all_eq_true.mp (by decide), by decide,
        List.all_eq_true.mp (by decide), layout.flush_fromType⟩
  have reads : Reads lowerWord? (lead ++ (("static " : Text) ++ found.fromType))
      (found.modifiers ++ [("static" : Text)]) found.fromType :=
    (layout.words.reads _ (isFlush_static _)).append (.more word (.done found.fromType))
  have stop : annotation? (lead ++ (("static " : Text) ++ found.fromType)) = none := by
    by_contra read
    exact reads.ne_none (by simp) ( declared?_of_annotation read).1
  rw [layout.begun _ (layout.flush.replace (isFlush_static _)) stop, behindAnnotations?,
    findSome?_repeats_eq_some_iff shrinks_lowerWord?]
  refine ⟨_, _, reads, by rw [declared?_of_typed? layout.typed]; rfl, fun others last filled further => ?_⟩
  rw [layout.longest others last filled further]
  rfl

/-- Behind type parameters the modifier `static` is no modifier, and it is no type. -/
theorem beginning?_static_generic (layout : IsLayout line found front lead generic)
    (list : IsParameterList generic) :
    beginning? (front ++ (lead ++ (generic ++ (("static " : Text) ++ found.fromType)))) = none := by
  have untyped : typed? (fun c => c != '\n') methodName?
      (("static" : Text) ++ ([' '] ++ found.fromType)) = none :=
    typed?_of_word (by decide) (List.all_eq_true.mp (by decide)) (by decide)
      (List.all_eq_true.mp (by decide)) layout.flush_fromType
      (isNoCall_of_typed? layout.typed) _
  have nothing : declared? (generic ++ (("static " : Text) ++ found.fromType)) = none := by
    rw [declared?, afterTypeParameters_append list (isFlush_static _)]
    exact Option.map_eq_none_iff.mpr untyped
  obtain ⟨inner, blanks, rfl, -⟩ := list
  have flush : IsFlush ('<' :: (inner ++ '>' :: blanks) ++ (("static " : Text) ++ found.fromType)) := by
    intro c first
    rw [← Option.some.inj first]
    decide
  have reads := layout.words.reads _ flush
  have noCall : IsNoCall ('<' :: (inner ++ '>' :: blanks) ++
      (("static " : Text) ++ found.fromType)) := by
    intro name rest run
    cases (show none = some (name, rest) from run)
  have nowhere := (declared?_of_reads reads rfl nothing noCall (by simp)).2.2
  have stop : annotation? (lead ++ ('<' :: (inner ++ '>' :: blanks) ++
      (("static " : Text) ++ found.fromType))) = none := by
    by_cases none : found.modifiers = []
    · rw [layout.words.nothing none]
      exact annotation?_of_head (by simp)
    · by_contra read
      exact reads.ne_none none ( declared?_of_annotation read).1
  rw [layout.begun _ (layout.flush.replace flush) stop, behindAnnotations?, List.findSome?_eq_none_iff]
  intro way member
  rw [nowhere way.1 way.2 ((mem_repeats_iff shrinks_lowerWord?).mp member)]
  rfl

end IsLayout

end Unpacking.Signature
