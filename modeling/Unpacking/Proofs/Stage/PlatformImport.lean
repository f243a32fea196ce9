import Unpacking.Proofs.Reflection.Inert
import Unpacking.Proofs.Stage.Balance

/-!
Lines that import from the platform. The stage that comments them out leaves none behind, and no
later change of a line brings one back: an import is read off the front of its line, so a line that
is cut short imports nothing that the whole line did not import.
-/

namespace Unpacking.Stage

open Text Line

/-- A name lies in one of some namespaces if it continues it with a dot. -/
def LiesIn (namespaces : List Text) (name : Text) : Prop :=
  ∃ space ∈ namespaces, space ++ ['.'] <+: name

theorem isInside_iff {name space : Text} :
    isInside name space = true ↔ space ++ ['.'] <+: name := by
  rw [isInside]
  constructor
  · intro inside
    split at inside
    · rename_i c rest found
      obtain rfl := beq_iff_eq.mp inside
      exact ⟨rest, by rw [after?_eq_some found]; simp⟩
    · simp at inside
  · rintro ⟨rest, rfl⟩
    simp [List.append_assoc, after?_append]

theorem isPlatformName_iff {namespaces : List Text} {name : Text} :
    isPlatformName namespaces name = true ↔ LiesIn namespaces name := by
  simp [isPlatformName, LiesIn, isInside_iff]

/-! ### Reading an import off the front of a line -/

/-- A character of an imported name. -/
def isImported (c : Char) : Bool :=
  isWord c || c == '.'

theorem isImported_of_isBlank {c : Char} (blank : isBlank c = true) : isImported c = false := by
  have notDot : c ≠ '.' := by
    rintro rfl
    exact absurd blank (by decide)
  simp [isImported, isWord_of_isBlank blank, notDot]

/-- The end of an imported name: a semicolon behind blanks. -/
def closesImport (text : Text) : Bool :=
  begins ";" (trimStart text)

theorem trimStart_append_of_ne_nil {text : Text} (filled : trimStart text ≠ []) (more : Text) :
    trimStart (text ++ more) = trimStart text ++ more := by
  rw [trimStart] at filled
  simp [trimStart, List.dropWhile_append, filled]

theorem exists_of_closesImport {text : Text} (closes : closesImport text = true) :
    ∃ rest, trimStart text = ';' :: rest := by
  obtain ⟨rest, same⟩ := List.isPrefixOf_iff_prefix.mp closes
  exact ⟨rest, same.symm⟩

theorem closesImport_append {text : Text} (closes : closesImport text = true) (more : Text) :
    text ≠ [] ∧ closesImport (text ++ more) = true := by
  obtain ⟨rest, trimmed⟩ := exists_of_closesImport closes
  constructor
  · rintro rfl
    simp [trimStart] at trimmed
  · rw [closesImport, trimStart_append_of_ne_nil (by simp [trimmed]), trimmed]
    rfl

/-- A run of characters ends where it did if more text follows behind its end. -/
theorem run?_append_of_ne_nil {inClass : Char → Bool} {text word rest : Text}
    (found : run? inClass text = some (word, rest)) (filled : rest ≠ []) (more : Text) :
    run? inClass (text ++ more) = some (word, rest ++ more) := by
  obtain ⟨rfl, named, members⟩ := run?_eq_some found
  have stop := List.head?_dropWhile_not inClass (word ++ rest)
  rw [dropWhile_of_run? found] at stop
  rw [List.append_assoc]
  refine run?_append named members fun c first => ?_
  rw [List.head?_append_of_ne_nil _ filled] at first
  simpa [first] using stop

/-- The two ways to read an imported name: it stands before a semicolon, or it ends with a dot and a
star stands between. -/
theorem importedName?_eq_some_iff {text name : Text} :
    importedName? text = some name ↔
      ∃ word rest, run? isImported text = some (word, rest) ∧
        (closesImport rest = true ∧ name = word ∨
          ∃ behind, rest = '*' :: behind ∧ closesImport behind = true ∧ 1 < word.length ∧
            word.getLast? = some '.' ∧ name = word ++ ['*']) := by
  have star (behind : Text) : closesImport ('*' :: behind) = false := by
    have solid : isBlank '*' = false := by decide
    simp [closesImport, trimStart, solid, begins, List.isPrefixOf]
  have starAfter (rest behind : Text) : after? "*" rest = some behind ↔ rest = '*' :: behind := by
    constructor
    · exact fun found => after?_eq_some found
    · rintro rfl
      exact after?_append ['*'] behind
  have unfolded : importedName? text = (run? isImported text).bind fun read =>
      if closesImport read.2 then some read.1
      else (after? "*" read.2).bind fun behind =>
        if closesImport behind && decide (read.1.length > 1) && read.1.getLast? == some '.' then
          some (read.1 ++ ['*'])
        else none := rfl
  rw [unfolded, Option.bind_eq_some_iff]
  constructor
  · rintro ⟨⟨word, rest⟩, found, read⟩
    refine ⟨word, rest, found, ?_⟩
    dsimp only at read
    split at read
    · rename_i closes
      exact .inl ⟨closes, (Option.some.inj read).symm⟩
    · obtain ⟨behind, after, read⟩ := Option.bind_eq_some_iff.mp read
      split at read
      · rename_i ending
        simp only [Bool.and_eq_true, decide_eq_true_eq, beq_iff_eq] at ending
        exact .inr ⟨behind, (starAfter rest behind).mp after, ending.1.1, ending.1.2, ending.2,
          (Option.some.inj read).symm⟩
      · simp at read
  · rintro ⟨word, rest, found, ⟨closes, rfl⟩ | ⟨behind, rfl, closes, long, dotted, rfl⟩⟩
    · exact ⟨(name, rest), found, by simp [closes]⟩
    · refine ⟨(word, '*' :: behind), found, ?_⟩
      dsimp only
      rw [star, if_neg (by decide), (starAfter _ behind).mpr rfl]
      simp [closes, long, dotted]

theorem ne_nil_of_ending {word rest name : Text}
    (ending : closesImport rest = true ∧ name = word ∨
      ∃ behind, rest = '*' :: behind ∧ closesImport behind = true ∧ 1 < word.length ∧
        word.getLast? = some '.' ∧ name = word ++ ['*']) : rest ≠ [] := by
  rcases ending with ⟨closes, -⟩ | ⟨behind, rfl, -⟩
  · exact (closesImport_append closes []).1
  · exact List.cons_ne_nil _ _

theorem importedName?_append {text name : Text} (found : importedName? text = some name)
    (more : Text) : text ≠ [] ∧ importedName? (text ++ more) = some name := by
  obtain ⟨word, rest, read, ending⟩ := importedName?_eq_some_iff.mp found
  refine ⟨?_, importedName?_eq_some_iff.mpr
    ⟨word, rest ++ more, run?_append_of_ne_nil read (ne_nil_of_ending ending) more, ?_⟩⟩
  · rintro rfl
    simp [run?] at read
  · rcases ending with ⟨closes, rfl⟩ | ⟨behind, rfl, closes, long, dotted, rfl⟩
    · exact .inl ⟨(closesImport_append closes more).2, rfl⟩
    · exact .inr ⟨behind ++ more, rfl, (closesImport_append closes more).2, long, dotted, rfl⟩

theorem after?_append_of_some {word text rest : Text} (found : after? word text = some rest)
    (more : Text) : after? word (text ++ more) = some (rest ++ more) := by
  rw [after?_eq_some found, List.append_assoc, after?_append]

theorem afterBlanks?_append_of_ne_nil {text rest : Text} (found : afterBlanks? text = some rest)
    (filled : rest ≠ []) (more : Text) : afterBlanks? (text ++ more) = some (rest ++ more) := by
  obtain ⟨blanks, rfl, some, blank, flush⟩ := afterBlanks?_eq_some_iff.mp found
  refine afterBlanks?_eq_some_iff.mpr ⟨blanks, List.append_assoc _ _ _, some, blank, ?_⟩
  intro c first
  rw [List.head?_append_of_ne_nil _ filled] at first
  exact flush c first

/-- The name behind the word for static imports. -/
def staticName? (text : Text) : Option Text :=
  (oneOf? ["static"] text).bind fun (_, rest) => importedName? rest

theorem staticName?_eq_some_iff {text name : Text} :
    staticName? text = some name ↔
      ∃ behind rest, text = ("static" : Text) ++ behind ∧ afterBlanks? behind = some rest ∧
        importedName? rest = some name := by
  rw [staticName?, Option.bind_eq_some_iff]
  constructor
  · rintro ⟨⟨word, rest⟩, found, read⟩
    obtain ⟨behind, same, blanks⟩ := oneOf?_eq_some found
    have isStatic : word = "static".toList := by
      obtain ⟨listed, member, whole⟩ := List.exists_of_findSome?_eq_some found
      simp only [Option.bind_eq_bind, Option.bind_eq_some_iff, Option.pure_def,
        Option.some.injEq, Prod.mk.injEq] at whole
      obtain ⟨_, _, _, _, rfl, _⟩ := whole
      exact List.mem_singleton.mp member
    exact ⟨behind, rest, isStatic ▸ same, blanks, read⟩
  · rintro ⟨behind, rest, rfl, blanks, read⟩
    have found : oneOf? ["static"] ("static" ++ behind) = some ("static".toList, rest) := by
      rw [oneOf?, List.findSome?_cons, after?_append]
      simp [blanks]
    exact ⟨("static".toList, rest), found, read⟩

/-- A plain import is not taken for a static one when more text follows. -/
theorem staticName?_append_of_importedName? {text name : Text}
    (found : importedName? text = some name) (more : Text) :
    staticName? (text ++ more) = none := by
  rw [Option.eq_none_iff_forall_ne_some]
  intro other isStatic
  obtain ⟨behind, later, whole, blanks, read⟩ := staticName?_eq_some_iff.mp isStatic
  obtain ⟨between, rfl, spaced, blank, flush⟩ := afterBlanks?_eq_some_iff.mp blanks
  obtain ⟨word, rest, ran, ending⟩ := importedName?_eq_some_iff.mp found
  -- Both readings run over the same word, so what follows it is the same text.
  have shared : rest ++ more = between ++ later := by
    have first := run?_append_of_ne_nil ran (ne_nil_of_ending ending) more
    have second : run? isImported (text ++ more) = some ("static".toList, between ++ later) := by
      rw [whole]
      refine run?_append (by decide) (List.all_eq_true.mp (by decide)) fun c head => ?_
      obtain ⟨d, between, rfl⟩ := List.exists_cons_of_ne_nil spaced
      obtain rfl : d = c := by simpa using head
      exact isImported_of_isBlank (blank d (by simp))
    exact (Prod.mk.inj (Option.some.inj (first.symm.trans second))).2
  rcases ending with ⟨closes, -⟩ | ⟨behind, rfl, -⟩
  · -- The semicolon closes the plain import, so no name stands behind the blanks.
    obtain ⟨last, trimmed⟩ := exists_of_closesImport (closesImport_append closes more).2
    rw [shared, trimStart_append blank flush] at trimmed
    rw [trimmed, importedName?_eq_some_iff] at read
    obtain ⟨_, _, ran, -⟩ := read
    have stops : isImported ';' = false := by decide
    simp [run?, stops] at ran
  · obtain ⟨d, between, rfl⟩ := List.exists_cons_of_ne_nil spaced
    have isStar : '*' = d := (List.cons.inj shared).1
    have isSpace := blank d (by simp)
    rw [← isStar] at isSpace
    exact absurd isSpace (by decide)

/-- A line that goes on behind its import imports the same name. -/
theorem importLine?_append {line : Line} {name : Text} (found : importLine? line = some name)
    (more : Text) : importLine? (line ++ more) = some name := by
  have unfolded (line : Line) : importLine? line =
      (after? "import" (trimStart line)).bind fun rest => (afterBlanks? rest).bind fun rest =>
        (staticName? rest).or (importedName? rest) := by
    rw [importLine?]
    congr 1
    funext rest
    congr 1
    funext rest
    rw [staticName?]
    split
    · rename_i name found
      rw [found]
      rfl
    · rename_i missing
      rw [missing]
      rfl
  rw [unfolded] at found ⊢
  obtain ⟨behind, after, found⟩ := Option.bind_eq_some_iff.mp found
  obtain ⟨rest, blanks, found⟩ := Option.bind_eq_some_iff.mp found
  have begun : trimStart line ≠ [] := by
    rw [after?_eq_some after]
    simp
  have longer : rest ≠ [] ∧ (staticName? (rest ++ more)).or (importedName? (rest ++ more)) =
      some name := by
    cases isStatic : staticName? rest with
    | some other =>
        obtain rfl : other = name := by simpa [isStatic] using found
        obtain ⟨behind, later, rfl, blanks, read⟩ := staticName?_eq_some_iff.mp isStatic
        obtain ⟨filled, again⟩ := importedName?_append read more
        have still : staticName? ("static" ++ behind ++ more) = some other :=
          staticName?_eq_some_iff.mpr ⟨behind ++ more, later ++ more, List.append_assoc _ _ _,
            afterBlanks?_append_of_ne_nil blanks filled more, again⟩
        exact ⟨by simp, by rw [still]; rfl⟩
    | none =>
        have plain : importedName? rest = some name := by simpa [isStatic] using found
        obtain ⟨filled, again⟩ := importedName?_append plain more
        exact ⟨filled, by rw [staticName?_append_of_importedName? plain more, again]; rfl⟩
  rw [trimStart_append_of_ne_nil begun, after?_append_of_some after, Option.bind_some,
    afterBlanks?_append_of_ne_nil blanks longer.1, Option.bind_some, longer.2]

/-! ### Lines that import nothing from the platform -/

/-- A line that imports nothing from some namespaces. -/
def IsPortable (namespaces : List Text) (line : Line) : Prop :=
  ∀ name, importLine? line = some name → ¬LiesIn namespaces name

variable {namespaces : List Text}

theorem isPortable_of_none {line : Line} (noImport : importLine? line = none) :
    IsPortable namespaces line := by
  intro name found
  simp [noImport] at found

theorem IsPortable.of_append {line : Line} {more : Text}
    (portable : IsPortable namespaces (line ++ more)) : IsPortable namespaces line :=
  fun name found => portable name (importLine?_append found more)

theorem importLine?_of_isLineComment {line : Line} (comment : isLineComment line = true) :
    importLine? line = none := by
  obtain ⟨rest, same⟩ := List.isPrefixOf_iff_prefix.mp comment
  rw [importLine?, ← same]
  rfl

theorem importLine?_of_isPlaceholder {line : Line}
    (placeholder : Reflection.isPlaceholder line = true) : importLine? line = none := by
  rcases Reflection.isPlaceholder_cases placeholder with whole | whole <;>
    (rw [importLine?, whole]; rfl)

/-- No sweep of the removal of reflection makes an import from the platform. -/
theorem isLasting_isPortable : Reflection.IsLasting (IsPortable namespaces) where
  comment := fun _ comment => isPortable_of_none (importLine?_of_isLineComment comment)
  placeholder := fun _ placeholder => isPortable_of_none (importLine?_of_isPlaceholder placeholder)
  shortened := fun _ => .of_append

theorem isPortable_withoutPlatformImport (line : Line) :
    IsPortable namespaces (withoutPlatformImport namespaces line) := by
  unfold withoutPlatformImport
  split
  · rename_i name imported
    split
    · exact isPortable_of_none (importLine?_of_isLineComment (isLineComment_slashes _))
    · rename_i foreign
      intro other found
      obtain rfl : name = other := Option.some.inj (imported.symm.trans found)
      rwa [← isPlatformName_iff]
  · rename_i noImport
    exact isPortable_of_none noImport

/-- A line without its import from the platform is the line or a comment. -/
theorem withoutPlatformImport_cases (namespaces : List Text) (line : Line) :
    withoutPlatformImport namespaces line = line ∨
      withoutPlatformImport namespaces line = commentOut line := by
  unfold withoutPlatformImport
  split
  · split
    · exact .inr rfl
    · exact .inl rfl
  · exact .inl rfl

/-- The stage leaves no import from the platform behind. -/
theorem isPortable_commentPlatformImports (text : Text) :
    ∀ line ∈ lines (commentPlatformImports namespaces text), IsPortable namespaces line := by
  intro line member
  have unbroken (line : Line) (whole : '\n' ∉ line) :
      '\n' ∉ withoutPlatformImport namespaces line := by
    rcases withoutPlatformImport_cases namespaces line with same | comment
    · rwa [same]
    · simpa [comment, commentOut] using whole
  have filled (line : Line) (empty : withoutPlatformImport namespaces line = []) : line = [] := by
    rcases withoutPlatformImport_cases namespaces line with same | comment
    · rwa [← same]
    · simp [comment, commentOut] at empty
  obtain ⟨old, -, related⟩ := mem_lines_mapLines unbroken filled member
  have changed := @isPortable_withoutPlatformImport namespaces old
  rcases related with rfl | longer
  · exact changed
  · exact (longer ▸ changed).of_append

end Unpacking.Stage
