import Unpacking.Proofs.Text.Reading

/-!
Items that are read off a text one after the other. An item ends with blanks, so it is read in the
same way whatever text comes behind it, as long as that text does not begin with a blank itself.
-/

namespace Unpacking.Text

/-! ### Texts that do not begin with a blank -/

/-- A text that does not begin with a blank. -/
def IsFlush (text : Text) : Prop :=
  ∀ c, text.head? = some c → isBlank c = false

theorem trimStart_of_isFlush {text : Text} (flush : IsFlush text) : trimStart text = text := by
  cases text with
  | nil => rfl
  | cons c text =>
      have solid : isBlank c = false := flush c rfl
      simp [trimStart, solid]

theorem isFlush_trimStart (text : Text) : IsFlush (trimStart text) := by
  intro c first
  have stops := List.head?_dropWhile_not isBlank text
  rw [show text.dropWhile isBlank = trimStart text from rfl, first] at stops
  exact stops

theorem trimStart_append {blanks rest : Text} (blank : ∀ c ∈ blanks, isBlank c = true)
    (flush : IsFlush rest) : trimStart (blanks ++ rest) = rest := by
  rw [trimStart, List.dropWhile_append_of_pos blank]
  exact trimStart_of_isFlush flush

theorem afterBlanks?_eq_some_iff {text rest : Text} :
    afterBlanks? text = some rest ↔
      ∃ blanks, text = blanks ++ rest ∧ blanks ≠ [] ∧ (∀ c ∈ blanks, isBlank c = true) ∧
        IsFlush rest := by
  constructor
  · intro found
    obtain ⟨blanks, whole, filled, blank⟩ := blanks_of_afterBlanks? found
    refine ⟨blanks, whole, filled, blank, ?_⟩
    cases text with
    | nil => simp [afterBlanks?] at found
    | cons c text =>
        rw [afterBlanks?] at found
        split at found
        · rw [← Option.some.inj found]
          exact isFlush_trimStart text
        · simp at found
  · rintro ⟨blanks, rfl, filled, blank, flush⟩
    obtain ⟨c, blanks, rfl⟩ := List.exists_cons_of_ne_nil filled
    rw [List.cons_append, afterBlanks?, if_pos (blank c (by simp)),
      trimStart_append (fun d member => blank d (by simp [member])) flush]

/-- What stands in front of a flush text may be followed by any other flush text. -/
theorem IsFlush.replace {part rest other : Text} (flush : IsFlush (part ++ rest))
    (also : IsFlush other) : IsFlush (part ++ other) := by
  cases part with
  | nil => exact also
  | cons c part => exact flush

/-- A run ends where the text leaves its class. -/
theorem run?_append {inClass : Char → Bool} {word rest : Text} (filled : word ≠ [])
    (members : ∀ c ∈ word, inClass c = true)
    (stops : ∀ c, rest.head? = some c → inClass c = false) :
    run? inClass (word ++ rest) = some (word, rest) := by
  have taken : rest.takeWhile inClass = [] ∧ rest.dropWhile inClass = rest := by
    cases rest with
    | nil => exact ⟨rfl, rfl⟩
    | cons c rest => simp [stops c rfl]
  obtain ⟨c, word, rfl⟩ := List.exists_cons_of_ne_nil filled
  rw [run?, List.takeWhile_append_of_pos members, List.dropWhile_append_of_pos members, taken.1,
    taken.2, List.append_nil]

/-- The first mark of a text cuts it. -/
theorem cut?_append {mark : Char} {left : Text} (first : mark ∉ left) (right : Text) :
    cut? mark (left ++ mark :: right) = some (left, right) := by
  induction left with
  | nil => simp [cut?]
  | cons c left inductionHypothesis =>
      simp only [List.mem_cons, not_or] at first
      rw [List.cons_append, cut?, if_neg (Ne.symm first.1), inductionHypothesis first.2]
      rfl

theorem not_mem_of_cut? {mark : Char} {text left right : Text}
    (found : cut? mark text = some (left, right)) : mark ∉ left := by
  induction text generalizing left with
  | nil => simp [cut?] at found
  | cons c text inductionHypothesis =>
      rw [cut?] at found
      split at found
      · rw [← (Prod.mk.inj (Option.some.inj found)).1]
        exact List.not_mem_nil
      · rename_i other
        obtain ⟨⟨inner, tail⟩, split, same⟩ := Option.map_eq_some_iff.mp found
        obtain ⟨rfl, rfl⟩ := Prod.mk.inj same
        rw [List.mem_cons, not_or]
        exact ⟨Ne.symm other, inductionHypothesis split⟩

/-! ### The last character before the blanks -/

theorem trimEnd_append_of_ne_nil {rest : Text} (filled : trimEnd rest ≠ []) (text : Text) :
    trimEnd (text ++ rest) = text ++ trimEnd rest := by
  rw [trimEnd, ne_eq, List.reverse_eq_nil_iff] at filled
  rw [trimEnd, trimEnd, List.reverse_append, List.dropWhile_append,
    if_neg (by simpa using filled), List.reverse_append, List.reverse_reverse]

theorem trimEnd_append {text blanks : Text} {c : Char} (last : text.getLast? = some c)
    (solid : isBlank c = false) (blank : ∀ c ∈ blanks, isBlank c = true) :
    trimEnd (text ++ blanks) = text := by
  obtain ⟨start, rfl⟩ := List.getLast?_eq_some_iff.mp last
  have passed : ∀ d ∈ blanks.reverse, isBlank d = true := by simpa using blank
  rw [trimEnd, List.reverse_append, List.dropWhile_append_of_pos passed]
  simp [solid]

/-- A text whose last character before the blanks is given. -/
def EndsSolid (text : Text) (c : Char) : Prop :=
  isBlank c = false ∧ ∃ core blanks, text = core ++ blanks ∧ core.getLast? = some c ∧
    ∀ d ∈ blanks, isBlank d = true

theorem ends_singleton (mark : Char) (text : Text) :
    ends [mark] text = (text.getLast? == some mark) := by
  rw [ends, Bool.eq_iff_iff, List.isSuffixOf_iff_suffix, beq_iff_eq, List.getLast?_eq_some_iff]
  exact exists_congr fun front => eq_comm

theorem EndsSolid.ends_trimEnd {text : Text} {c : Char} (solid : EndsSolid text c) (mark : Char) :
    ends [mark] (trimEnd text) = (c == mark) := by
  obtain ⟨filled, core, blanks, rfl, last, blank⟩ := solid
  rw [trimEnd_append last filled blank, ends_singleton, last]
  rfl

theorem EndsSolid.append {text : Text} {c : Char} (solid : EndsSolid text c) (front : Text) :
    EndsSolid (front ++ text) c := by
  obtain ⟨filled, core, blanks, rfl, last, blank⟩ := solid
  refine ⟨filled, front ++ core, blanks, (List.append_assoc _ _ _).symm, ?_, blank⟩
  rw [List.getLast?_append, last]
  rfl

/-! ### Chains of items -/

/-- Items are read one after the other, and a rest is left. -/
inductive Reads {α : Type} (item : Text → Option (α × Text)) : Text → List α → Text → Prop where
  | done (text : Text) : Reads item text [] text
  | more {text next rest : Text} {first : α} {items : List α}
      (read : item text = some (first, next)) (later : Reads item next items rest) :
      Reads item text (first :: items) rest

section Chains

variable {α : Type} {item : Text → Option (α × Text)} {text mid rest : Text} {items others : List α}

theorem Reads.append (first : Reads item text items mid) (second : Reads item mid others rest) :
    Reads item text (items ++ others) rest := by
  induction first with
  | done text => exact second
  | more read _ inductionHypothesis => exact .more read (inductionHypothesis second)

theorem Reads.ne_none (reads : Reads item text items rest) (filled : items ≠ []) :
    item text ≠ none := by
  cases reads with
  | done => exact absurd rfl filled
  | more read _ => simp [read]

/-- The ways to read items are the chains of items. -/
theorem mem_repeats_iff (shrinks : Shrinks item) :
    (items, rest) ∈ repeats item text ↔ Reads item text items rest := by
  constructor
  · intro member
    induction text using itemwise shrinks generalizing items with
    | stop text read =>
        rw [repeats_of_none read, List.mem_singleton, Prod.mk.injEq] at member
        rw [member.1, member.2]
        exact .done text
    | more text first next read inductionHypothesis =>
        rw [repeats_of_some shrinks read, List.mem_append, List.mem_map, List.mem_singleton,
          Prod.mk.injEq] at member
        rcases member with ⟨⟨inner, left⟩, inside, same⟩ | ⟨rfl, rfl⟩
        · obtain ⟨rfl, rfl⟩ := Prod.mk.inj same
          exact .more read (inductionHypothesis inside)
        · exact .done rest
  · intro reads
    induction reads with
    | done text =>
        cases read : item text with
        | none => simp [repeats_of_none read]
        | some found => simp [repeats_of_some shrinks read]
    | more read _ inductionHypothesis =>
        rw [repeats_of_some shrinks read]
        exact List.mem_append_left _ (List.mem_map.mpr ⟨_, inductionHypothesis, rfl⟩)

/-- A search among the ways to read items finds something where no longer chain does. -/
theorem findSome?_repeats_eq_some_iff {β : Type} (shrinks : Shrinks item)
    {found : List α × Text → Option β} {value : β} :
    (repeats item text).findSome? found = some value ↔
      ∃ items rest, Reads item text items rest ∧ found (items, rest) = some value ∧
        ∀ others last, others ≠ [] → Reads item rest others last →
          found (items ++ others, last) = none := by
  induction text using itemwise shrinks generalizing found with
  | stop text read =>
      rw [repeats_of_none read]
      simp only [List.findSome?_singleton]
      constructor
      · intro here
        refine ⟨[], text, .done text, here, fun others last filled reads => ?_⟩
        cases reads with
        | done => exact absurd rfl filled
        | more other _ => simp [read] at other
      · rintro ⟨items, rest, reads, here, -⟩
        cases reads with
        | done => exact here
        | more other _ => simp [read] at other
  | more text first next read inductionHypothesis =>
      have behind := @inductionHypothesis fun way => found (first :: way.1, way.2)
      rw [repeats_of_some shrinks read, List.findSome?_append, List.findSome?_map,
        Option.or_eq_some_iff]
      simp only [Function.comp_def, List.findSome?_singleton]
      rw [behind]
      constructor
      · rintro (⟨items, rest, reads, here, longest⟩ | ⟨nowhere, here⟩)
        · exact ⟨first :: items, rest, .more read reads, here, longest⟩
        · refine ⟨[], text, .done text, here, fun others last filled reads => ?_⟩
          cases reads with
          | done => exact absurd rfl filled
          | more other later =>
              rw [read, Option.some.injEq, Prod.mk.injEq] at other
              obtain ⟨rfl, rfl⟩ := other
              rw [List.findSome?_eq_none_iff] at nowhere
              exact nowhere _ ((mem_repeats_iff shrinks).mpr later)
      · rintro ⟨items, rest, reads, here, longest⟩
        cases reads with
        | done =>
            refine .inr ⟨?_, here⟩
            rw [List.findSome?_eq_none_iff]
            rintro ⟨others, last⟩ member
            exact longest (first :: others) last (by simp)
              (.more read ((mem_repeats_iff shrinks).mp member))
        | more other later =>
            rw [read, Option.some.injEq, Prod.mk.injEq] at other
            obtain ⟨rfl, rfl⟩ := other
            exact .inl ⟨_, rest, later, here, longest⟩

/-- Behind as many items as there are, there is no further item. -/
theorem afterItems_eq_iff (shrinks : Shrinks item) :
    afterItems item text = rest ↔ ∃ items, Reads item text items rest ∧ item rest = none := by
  induction text using itemwise shrinks with
  | stop text read =>
      rw [afterItems_of_none read]
      constructor
      · rintro rfl
        exact ⟨[], .done text, read⟩
      · rintro ⟨items, reads, -⟩
        cases reads with
        | done => rfl
        | more other _ => simp [read] at other
  | more text first next read inductionHypothesis =>
      rw [afterItems_of_some shrinks read, inductionHypothesis]
      constructor
      · rintro ⟨items, reads, stop⟩
        exact ⟨first :: items, .more read reads, stop⟩
      · rintro ⟨items, reads, stop⟩
        cases reads with
        | done => simp [read] at stop
        | more other later =>
            rw [read, Option.some.injEq, Prod.mk.injEq] at other
            obtain ⟨rfl, rfl⟩ := other
            exact ⟨_, later, stop⟩

/-- An item ends with blanks, before them with no closing angle bracket, and it is read in the same
way before any other flush text. -/
def IsSteady (item : Text → Option (α × Text)) : Prop :=
  ∀ {text first rest}, item text = some (first, rest) →
    IsFlush rest ∧ ∃ part, text = part ++ rest ∧ (∃ c, c ≠ '>' ∧ EndsSolid part c) ∧
      ∀ other, IsFlush other → item (part ++ other) = some (first, other)

/-- The part of a text that a chain of items takes. -/
structure IsChain (item : Text → Option (α × Text)) (part : Text) (items : List α) : Prop where
  reads : ∀ rest, IsFlush rest → Reads item (part ++ rest) items rest
  nothing : items = [] → part = []
  solid : items ≠ [] → ∃ c, c ≠ '>' ∧ EndsSolid part c

/-- A chain of items takes the same part of a text whatever flush text comes behind it. -/
theorem Reads.exists_isChain (steady : IsSteady item) (reads : Reads item text items rest)
    (flush : IsFlush text) : IsFlush rest ∧ ∃ part, text = part ++ rest ∧ IsChain item part items := by
  induction reads with
  | done text =>
      exact ⟨flush, [], rfl, fun rest _ => .done rest, fun _ => rfl, fun filled => absurd rfl filled⟩
  | @more text next rest first items read _ inductionHypothesis =>
      obtain ⟨flushNext, part, rfl, ⟨c, other, solid⟩, moved⟩ := steady read
      obtain ⟨flushRest, parts, rfl, chain⟩ := inductionHypothesis flushNext
      refine ⟨flushRest, part ++ parts, (List.append_assoc _ _ _).symm, ?_, by simp, fun _ => ?_⟩
      · intro rest flush
        rw [List.append_assoc]
        exact .more (moved _ (flushNext.replace flush)) (chain.reads rest flush)
      · by_cases none : items = []
        · rw [chain.nothing none, List.append_nil]
          exact ⟨c, other, solid⟩
        · obtain ⟨d, otherToo, solidToo⟩ := chain.solid none
          exact ⟨d, otherToo, solidToo.append part⟩

end Chains

/-! ### Words before blanks -/

theorem takeWhile_solid_append {word blanks rest : Text} (solid : ∀ c ∈ word, isBlank c = false)
    (filled : blanks ≠ []) (blank : ∀ c ∈ blanks, isBlank c = true) :
    (word ++ (blanks ++ rest)).takeWhile (fun c => !isBlank c) = word := by
  obtain ⟨c, blanks, rfl⟩ := List.exists_cons_of_ne_nil filled
  rw [List.takeWhile_append_of_pos (by simpa using solid), List.cons_append,
    List.takeWhile_cons_of_neg (by simp [blank c]), List.append_nil]

/-- A word without blanks is read wherever it stands before a blank, whatever the other words
are. -/
theorem oneOf?_eq_some_iff {words : List Text}
    (solid : ∀ word ∈ words, ∀ c ∈ word, isBlank c = false) {text word rest : Text} :
    oneOf? words text = some (word, rest) ↔
      word ∈ words ∧ ∃ blanks, text = word ++ (blanks ++ rest) ∧ blanks ≠ [] ∧
        (∀ c ∈ blanks, isBlank c = true) ∧ IsFlush rest := by
  have sound {word rest : Text} (found : oneOf? words text = some (word, rest)) :
      word ∈ words ∧ ∃ blanks, text = word ++ (blanks ++ rest) ∧ blanks ≠ [] ∧
        (∀ c ∈ blanks, isBlank c = true) ∧ IsFlush rest := by
    obtain ⟨listed, member, read⟩ := List.exists_of_findSome?_eq_some found
    simp only [Option.bind_eq_bind, Option.bind_eq_some_iff, Option.pure_def, Option.some.injEq,
      Prod.mk.injEq] at read
    obtain ⟨behind, taken, rest, skipped, rfl, rfl⟩ := read
    obtain ⟨blanks, rfl, filled, blank, flush⟩ := afterBlanks?_eq_some_iff.mp skipped
    exact ⟨member, blanks, after?_eq_some taken, filled, blank, flush⟩
  refine ⟨sound, ?_⟩
  rintro ⟨member, blanks, rfl, filled, blank, flush⟩
  have skipped : afterBlanks? (blanks ++ rest) = some rest :=
    afterBlanks?_eq_some_iff.mpr ⟨blanks, rfl, filled, blank, flush⟩
  have some : (oneOf? words (word ++ (blanks ++ rest))).isSome = true := by
    refine List.findSome?_isSome_iff.mpr ⟨word, member, ?_⟩
    simp [after?_append, skipped]
  obtain ⟨⟨other, last⟩, found⟩ := Option.isSome_iff_exists.mp some
  obtain ⟨listed, others, whole, filledToo, blankToo, flushToo⟩ := sound found
  -- The word ends at the first blank, so no other word of the list is read.
  have same := congrArg (List.takeWhile fun c => !isBlank c) whole
  rw [takeWhile_solid_append (solid word member) filled blank,
    takeWhile_solid_append (solid other listed) filledToo blankToo] at same
  subst same
  have behind : afterBlanks? (others ++ last) = Option.some rest :=
    (List.append_cancel_left whole) ▸ skipped
  rw [afterBlanks?_eq_some_iff.mpr ⟨others, rfl, filledToo, blankToo, flushToo⟩,
    Option.some.injEq] at behind
  rw [found, behind]

/-- Words without blanks and angle brackets are read in the same way whatever comes behind their
blanks. -/
theorem isSteady_oneOf? {words : List Text}
    (solid : ∀ word ∈ words, ∀ c ∈ word, isBlank c = false)
    (shape : ∀ word ∈ words, word ≠ [] ∧ '>' ∉ word) : IsSteady (oneOf? words) := by
  intro text word rest found
  obtain ⟨member, blanks, rfl, filled, blank, flush⟩ := (oneOf?_eq_some_iff solid).mp found
  obtain ⟨begun, plain⟩ := shape word member
  have last := List.getLast?_eq_getLast_of_ne_nil begun
  have inside := List.getLast_mem begun
  refine ⟨flush, word ++ blanks, (List.append_assoc _ _ _).symm, ⟨word.getLast begun, ?_, ?_⟩, ?_⟩
  · intro bracket
    exact plain (bracket ▸ inside)
  · exact ⟨solid word member _ inside, word, blanks, rfl, last, blank⟩
  · intro other flushOther
    rw [List.append_assoc]
    exact (oneOf?_eq_some_iff solid).mpr ⟨member, blanks, rfl, filled, blank, flushOther⟩

end Unpacking.Text
