import Mathlib.Data.List.Basic
import Unpacking.Text.Lines

/-!
Lines that are written and read back. Every pass over a text cuts it into lines and puts the lines
together again, and each time a line loses one carriage return at its end.
-/

namespace Unpacking.Text

/-- A line without one carriage return at its end. -/
def dropReturn (line : Line) : Line :=
  if line.getLast? = some '\r' then line.dropLast else line

/-- Lines that are written and read back. A line feed takes a carriage return before it along. -/
def readBack (closed : Bool) : List Line → List Line
  | [] => []
  | [line] => [if closed then dropReturn line else line]
  | line :: next :: rest => dropReturn line :: readBack closed (next :: rest)

/-- Lines that can be cut from a text. -/
structure IsCut (lines : List Line) (closed : Bool) : Prop where
  unbroken : ∀ line ∈ lines, '\n' ∉ line
  filled : closed = false → lines.getLast? ≠ some []

@[simp] theorem dropReturn_append_return (line : Line) :
    dropReturn (line ++ ['\r']) = line := by
  simp [dropReturn]

theorem dropReturn_of_getLast? {line : Line} (other : line.getLast? ≠ some '\r') :
    dropReturn line = line := by
  simp [dropReturn, other]

/-- A line changes by one carriage return at most. -/
theorem dropReturn_cases (line : Line) :
    dropReturn line = line ∨ line = dropReturn line ++ ['\r'] := by
  by_cases last : line.getLast? = some '\r'
  · obtain ⟨start, rfl⟩ := List.getLast?_eq_some_iff.mp last
    right
    rw [dropReturn_append_return]
  · exact .inl (dropReturn_of_getLast? last)

theorem dropReturn_cons {c : Char} {line : Line} (filled : line ≠ []) :
    dropReturn (c :: line) = c :: dropReturn line := by
  rcases dropReturn_cases line with same | longer
  · have other : line.getLast? ≠ some '\r' := by
      intro last
      obtain ⟨start, rfl⟩ := List.getLast?_eq_some_iff.mp last
      simp at same
    have whole : (c :: line).getLast? = line.getLast? := by
      obtain ⟨d, rest, rfl⟩ := List.exists_cons_of_ne_nil filled
      rw [List.getLast?_cons_cons]
    rw [same, dropReturn_of_getLast? (whole ▸ other)]
  · have shorter := dropReturn_append_return (c :: dropReturn line)
    rwa [List.cons_append, ← longer] at shorter

/-- A character that neither ends a line nor belongs to its end is added to the first line. -/
theorem lines_cons {c : Char} {rest : Text} (notFeed : c ≠ '\n')
    (notReturn : ∀ more, c = '\r' → rest ≠ '\n' :: more) :
    lines (c :: rest) =
      match lines rest with
      | [] => [[c]]
      | line :: more => (c :: line) :: more :=
  lines.eq_4 c rest notFeed notReturn

/-- The first line feed of a text closes its first line. -/
theorem lines_append_newline {line : Line} (unbroken : '\n' ∉ line) (rest : Text) :
    lines (line ++ '\n' :: rest) = dropReturn line :: lines rest := by
  induction line with
  | nil => simp [lines, dropReturn]
  | cons c line inductionHypothesis =>
      simp only [List.mem_cons, not_or] at unbroken
      have tail := inductionHypothesis unbroken.2
      cases line with
      | nil =>
          by_cases isReturn : c = '\r'
          · subst c
            simp [lines, dropReturn]
          · have single : dropReturn [c] = [c] := dropReturn_of_getLast? (by simp [isReturn])
            rw [List.cons_append, lines_cons (Ne.symm unbroken.1) (fun _ eq => absurd eq isReturn),
              tail, single]
            rfl
      | cons d line =>
          have inside : ∀ more, c = '\r' → d :: line ++ '\n' :: rest ≠ '\n' :: more := by
            intro more _ eq
            have head : d = '\n' := (List.cons.inj eq).1
            exact unbroken.2 (by simp [head])
          rw [List.cons_append, lines_cons (Ne.symm unbroken.1) inside, tail,
            dropReturn_cons (List.cons_ne_nil d line)]

/-- A text without a line feed is a single line. -/
theorem lines_of_unbroken {line : Line} (unbroken : '\n' ∉ line) (filled : line ≠ []) :
    lines line = [line] := by
  induction line with
  | nil => exact absurd rfl filled
  | cons c line inductionHypothesis =>
      simp only [List.mem_cons, not_or] at unbroken
      have inside : ∀ more, c = '\r' → line ≠ '\n' :: more := by
        intro more _ eq
        exact unbroken.2 (by simp [eq])
      rw [lines_cons (Ne.symm unbroken.1) inside]
      cases line with
      | nil => simp [lines]
      | cons d line => rw [inductionHypothesis unbroken.2 (List.cons_ne_nil d line)]

theorem unlines_singleton (line : Line) (closed : Bool) :
    unlines [line] closed = line ++ if closed then ['\n'] else [] := by
  simp [unlines, join]

theorem unlines_cons_cons (line next : Line) (rest : List Line) (closed : Bool) :
    unlines (line :: next :: rest) closed = line ++ '\n' :: unlines (next :: rest) closed := by
  simp [unlines, join]

theorem IsCut.tail {line next : Line} {rest : List Line} {closed : Bool}
    (cut : IsCut (line :: next :: rest) closed) : IsCut (next :: rest) closed where
  unbroken := fun other member => cut.unbroken other (List.mem_cons_of_mem line member)
  filled := by simpa using cut.filled

/-- Writing lines and reading them back takes one carriage return from each closed line. -/
theorem lines_unlines {lines : List Line} {closed : Bool} (cut : IsCut lines closed) :
    Text.lines (unlines lines closed) = readBack closed lines := by
  fun_induction readBack closed lines with
  | case1 => cases closed <;> rfl
  | case2 line =>
      have unbroken : '\n' ∉ line := cut.unbroken line (by simp)
      rw [unlines_singleton]
      cases closed with
      | false =>
          have filled : line ≠ [] := by simpa using cut.filled rfl
          simpa using lines_of_unbroken unbroken filled
      | true => simpa [Text.lines] using lines_append_newline unbroken []
  | case3 line next rest inductionHypothesis =>
      have unbroken : '\n' ∉ line := cut.unbroken line (by simp)
      rw [unlines_cons_cons, lines_append_newline unbroken, inductionHypothesis cut.tail]

/-- A text is empty, a single line, or a line before a line feed and a further text. -/
theorem linewise {motive : Text → Prop} (empty : motive [])
    (single : ∀ line, '\n' ∉ line → line ≠ [] → motive line)
    (closed : ∀ line rest, '\n' ∉ line → motive rest → motive (line ++ '\n' :: rest))
    (text : Text) : motive text := by
  induction equal : text.length using Nat.strongRecOn generalizing text with
  | ind size inductionHypothesis =>
      by_cases feed : '\n' ∈ text
      · obtain ⟨line, rest, rfl, unbroken⟩ := List.eq_append_cons_of_mem feed
        have shorter : rest.length < size := by
          rw [← equal, List.length_append, List.length_cons]
          omega
        exact closed line rest unbroken (inductionHypothesis rest.length shorter rest rfl)
      · by_cases filled : text = []
        · exact filled ▸ empty
        · exact single text feed filled

theorem endsWithNewline_append_newline (line : Line) (rest : Text) :
    endsWithNewline (line ++ '\n' :: rest) = (rest.isEmpty || endsWithNewline rest) := by
  cases rest with
  | nil => simp [endsWithNewline]
  | cons c rest => simp [endsWithNewline, List.getLast?_cons]

theorem dropReturn_isPrefix (line : Line) : dropReturn line <+: line := by
  rcases dropReturn_cases line with same | longer
  · exact ⟨[], by rw [same, List.append_nil]⟩
  · exact ⟨['\r'], longer.symm⟩

/-- A text of at least one character has a line. -/
theorem lines_ne_nil {text : Text} (filled : text ≠ []) : lines text ≠ [] := by
  induction text using linewise with
  | empty => exact absurd rfl filled
  | single line unbroken _ => simp [lines_of_unbroken unbroken filled]
  | closed line rest unbroken _ => simp [lines_append_newline unbroken]

/-- Every text is cut into lines that can be read back. -/
theorem isCut_lines (text : Text) : IsCut (lines text) (endsWithNewline text) := by
  induction text using linewise with
  | empty => exact ⟨by simp [lines], by simp [lines]⟩
  | single line unbroken filled =>
      rw [lines_of_unbroken unbroken filled]
      exact ⟨by simpa using unbroken, by simp [filled]⟩
  | closed line rest unbroken cut =>
      rw [lines_append_newline unbroken, endsWithNewline_append_newline]
      have first : '\n' ∉ dropReturn line :=
        fun member => unbroken ((dropReturn_isPrefix line).subset member)
      refine ⟨?_, ?_⟩
      · intro other member
        rcases List.mem_cons.mp member with rfl | member
        · exact first
        · exact cut.unbroken other member
      · intro isOpen
        simp only [Bool.or_eq_false_iff, List.isEmpty_eq_false_iff] at isOpen
        obtain ⟨next, more, cutRest⟩ := List.exists_cons_of_ne_nil (lines_ne_nil isOpen.1)
        have last := cut.filled isOpen.2
        rw [cutRest] at last ⊢
        rwa [List.getLast?_cons_cons]

/-- A line is a part of its text. -/
theorem infix_of_mem_lines {text : Text} {line : Line} (member : line ∈ lines text) :
    line <:+: text := by
  induction text using linewise with
  | empty => simp [lines] at member
  | single whole unbroken filled =>
      rw [lines_of_unbroken unbroken filled, List.mem_singleton] at member
      subst member
      exact List.infix_rfl
  | closed first rest unbroken inRest =>
      rw [lines_append_newline unbroken, List.mem_cons] at member
      rcases member with rfl | member
      · exact (dropReturn_isPrefix first).isInfix.trans
          (List.prefix_append first ('\n' :: rest)).isInfix
      · exact (inRest member).trans
          ((List.suffix_cons '\n' rest).trans (List.suffix_append first _)).isInfix

/-- A text has at most as many lines as characters. -/
theorem length_lines_le (text : Text) : (lines text).length ≤ text.length := by
  induction text using linewise with
  | empty => simp [lines]
  | single line unbroken filled =>
      rw [lines_of_unbroken unbroken filled]
      exact List.length_pos_iff.mpr filled
  | closed line rest unbroken inRest =>
      rw [lines_append_newline unbroken]
      simp only [List.length_cons, List.length_append]
      omega

/-- A line that is read back is a written line, up to one carriage return. -/
theorem mem_readBack {closed : Bool} {lines : List Line} {line : Line}
    (member : line ∈ readBack closed lines) :
    ∃ written ∈ lines, line = written ∨ written = line ++ ['\r'] := by
  have settled (written : Line) (same : line = dropReturn written) :
      line = written ∨ written = line ++ ['\r'] :=
    same ▸ dropReturn_cases written
  fun_induction readBack closed lines with
  | case1 => simp at member
  | case2 written =>
      refine ⟨written, by simp, ?_⟩
      cases closed with
      | false => exact .inl (by simpa using member)
      | true => exact settled written (by simpa using member)
  | case3 written next rest inductionHypothesis =>
      rcases List.mem_cons.mp member with same | member
      · exact ⟨written, by simp, settled written same⟩
      · obtain ⟨other, inside, related⟩ := inductionHypothesis member
        exact ⟨other, List.mem_cons_of_mem written inside, related⟩

/-- A measure of lines that ignores a carriage return is the same for the lines read back. -/
theorem map_readBack {α : Type} {measure : Line → α}
    (ignores : ∀ line, measure (line ++ ['\r']) = measure line) (closed : Bool)
    (lines : List Line) : (readBack closed lines).map measure = lines.map measure := by
  have dropped (line : Line) : measure (dropReturn line) = measure line := by
    rcases dropReturn_cases line with same | longer
    · rw [same]
    · rw [← ignores (dropReturn line), ← longer]
  fun_induction readBack closed lines with
  | case1 => rfl
  | case2 line => cases closed <;> simp [dropped]
  | case3 line next rest inductionHypothesis =>
      simp only [List.map_cons, dropped] at inductionHypothesis ⊢
      rw [inductionHypothesis]

theorem length_readBack (closed : Bool) (lines : List Line) :
    (readBack closed lines).length = lines.length := by
  fun_induction readBack closed lines with
  | case1 => rfl
  | case2 line => rfl
  | case3 line next rest inductionHypothesis =>
      simp only [List.length_cons, inductionHypothesis]

/-- The lines read back have a property no more often, if it stays when a return is added. -/
theorem countP_readBack_le {property : Line → Bool}
    (grows : ∀ line, property line = true → property (line ++ ['\r']) = true) (closed : Bool)
    (lines : List Line) : (readBack closed lines).countP property ≤ lines.countP property := by
  have dropped (line : Line) (holds : property (dropReturn line) = true) :
      property line = true := by
    rcases dropReturn_cases line with same | longer
    · exact same ▸ holds
    · rw [longer]
      exact grows (dropReturn line) holds
  have single (line : Line) : [dropReturn line].countP property ≤ [line].countP property := by
    simp only [List.countP_singleton]
    split
    · rename_i holds
      simp [dropped line holds]
    · exact Nat.zero_le _
  fun_induction readBack closed lines with
  | case1 => exact Nat.le_refl _
  | case2 line =>
      cases closed with
      | false => exact Nat.le_refl _
      | true => exact single line
  | case3 line next rest inductionHypothesis =>
      have first := single line
      rw [List.countP_cons, List.countP_cons]
      simp only [List.countP_singleton] at first
      omega

/-- Lines that are replaced group by group can still be cut from a text. -/
theorem IsCut.flatMap {α : Type} {before after : α → List Line} {groups : List α} {closed : Bool}
    (cut : IsCut (groups.flatMap before) closed)
    (unbroken : ∀ group ∈ groups, (∀ line ∈ before group, '\n' ∉ line) →
      ∀ line ∈ after group, '\n' ∉ line)
    (filled : ∀ group ∈ groups, (before group).getLast? ≠ some [] →
      (after group).getLast? ≠ some [])
    (kept : ∀ group ∈ groups, before group ≠ [] ∧ after group ≠ []) :
    IsCut (groups.flatMap after) closed where
  unbroken := by
    intro line member
    obtain ⟨group, inside, member⟩ := List.mem_flatMap.mp member
    refine unbroken group inside (fun other inGroup => ?_) line member
    exact cut.unbroken other (List.mem_flatMap.mpr ⟨group, inside, inGroup⟩)
  filled := by
    intro isOpen
    have last := cut.filled isOpen
    cases final : groups.getLast? with
    | none => simp [List.getLast?_eq_none_iff.mp final]
    | some group =>
      obtain ⟨start, rfl⟩ := List.getLast?_eq_some_iff.mp final
      have inside : group ∈ start ++ [group] := by simp
      have nonempty := kept group inside
      rw [List.flatMap_append, List.flatMap_singleton] at last ⊢
      rw [List.getLast?_append_of_ne_nil _ nonempty.1] at last
      rw [List.getLast?_append_of_ne_nil _ nonempty.2]
      exact filled group inside last

/-! ### Texts without carriage returns -/

/-- Lines without carriage returns are read back as they were written. -/
theorem readBack_of_not_mem {lines : List Line} (plain : ∀ line ∈ lines, '\r' ∉ line)
    (closed : Bool) : readBack closed lines = lines := by
  have kept (line : Line) (free : '\r' ∉ line) : dropReturn line = line := by
    refine dropReturn_of_getLast? fun last => ?_
    exact free (List.mem_of_getLast? last)
  fun_induction readBack closed lines with
  | case1 => rfl
  | case2 line => cases closed <;> simp [kept line (plain line (by simp))]
  | case3 line next rest inductionHypothesis =>
      have others := inductionHypothesis fun other member => plain other (by simp [member])
      rw [kept line (plain line (by simp)), others]

theorem not_mem_of_mem_lines {text : Text} {c : Char} (free : c ∉ text) :
    ∀ line ∈ lines text, c ∉ line :=
  fun _ member inside => free ((infix_of_mem_lines member).mem inside)

theorem not_mem_unlines {lines : List Line} {c : Char} (free : ∀ line ∈ lines, c ∉ line)
    (other : c ≠ '\n') (closed : Bool) : c ∉ unlines lines closed := by
  induction lines with
  | nil => simp [unlines, join]
  | cons line rest inductionHypothesis =>
      have first : c ∉ line := free line (by simp)
      have others := inductionHypothesis fun later member => free later (by simp [member])
      cases rest with
      | nil =>
          rw [unlines_singleton]
          cases closed <;> simp [first, other]
      | cons next rest =>
          rw [unlines_cons_cons]
          simp [first, other, others]

/-- A text without carriage returns is what its lines make up. -/
theorem unlines_lines {text : Text} (plain : '\r' ∉ text) :
    unlines (lines text) (endsWithNewline text) = text := by
  induction text using linewise with
  | empty => rfl
  | single line unbroken filled =>
      have isOpen : endsWithNewline line = false := by
        have other : line.getLast? ≠ some '\n' := fun last => unbroken (List.mem_of_getLast? last)
        simpa [endsWithNewline] using other
      rw [lines_of_unbroken unbroken filled, isOpen, unlines_singleton]
      simp
  | closed line rest unbroken inductionHypothesis =>
      have same : dropReturn line = line := by
        refine dropReturn_of_getLast? fun last => plain ?_
        exact List.mem_append_left _ (List.mem_of_getLast? last)
      have others := inductionHypothesis fun member => plain (by simp [member])
      rw [lines_append_newline unbroken, endsWithNewline_append_newline, same]
      cases rest with
      | nil => simp [lines, unlines_singleton]
      | cons c rest =>
          have filled := lines_ne_nil (List.cons_ne_nil c rest)
          obtain ⟨next, more, cut⟩ := List.exists_cons_of_ne_nil filled
          rw [cut] at others ⊢
          rw [unlines_cons_cons, List.isEmpty_cons, Bool.false_or, others]

/-! ### Lines that are replaced one by one -/

/-- Lines that are replaced one by one can still be cut from a text. -/
theorem isCut_map_lines {change : Line → Line} (unbroken : ∀ line, '\n' ∉ line → '\n' ∉ change line)
    (filled : ∀ line, change line = [] → line = []) (text : Text) :
    IsCut ((lines text).map change) (endsWithNewline text) where
  unbroken := by
    intro line member
    obtain ⟨line, inside, rfl⟩ := List.mem_map.mp member
    exact unbroken line ((isCut_lines text).unbroken line inside)
  filled := by
    intro isOpen last
    rw [List.getLast?_map, Option.map_eq_some_iff] at last
    obtain ⟨line, last, empty⟩ := last
    exact (isCut_lines text).filled isOpen (filled line empty ▸ last)

/-- A line of the new text is a replaced line, up to one carriage return. -/
theorem mem_lines_mapLines {change : Line → Line} {text : Text} {line : Line}
    (unbroken : ∀ line, '\n' ∉ line → '\n' ∉ change line)
    (filled : ∀ line, change line = [] → line = [])
    (member : line ∈ lines (mapLines change text)) :
    ∃ old ∈ lines text, line = change old ∨ change old = line ++ ['\r'] := by
  rw [mapLines, overLines, lines_unlines (isCut_map_lines unbroken filled text)] at member
  obtain ⟨written, inside, related⟩ := mem_readBack member
  obtain ⟨old, isOld, rfl⟩ := List.mem_map.mp inside
  exact ⟨old, isOld, related⟩

/-- Without carriage returns the replaced lines are the lines of the new text. -/
theorem lines_mapLines {change : Line → Line} {text : Text} (plain : '\r' ∉ text)
    (free : ∀ line c, c = '\n' ∨ c = '\r' → c ∉ line → c ∉ change line)
    (filled : ∀ line, change line = [] → line = []) :
    lines (mapLines change text) = (lines text).map change := by
  have cut := isCut_map_lines (fun line => free line '\n' (.inl rfl)) filled text
  rw [mapLines, overLines, lines_unlines cut]
  apply readBack_of_not_mem
  intro line member
  obtain ⟨line, inside, rfl⟩ := List.mem_map.mp member
  exact free line '\r' (.inr rfl) (not_mem_of_mem_lines plain line inside)

/-! ### Lines that are replaced twice -/

/-- An empty last line that no line feed closes is not read back. -/
theorem unlines_append_nil {lines : List Line} (filled : lines ≠ []) :
    unlines (lines ++ [[]]) false = unlines lines true := by
  induction lines with
  | nil => exact absurd rfl filled
  | cons line rest inductionHypothesis =>
      cases rest with
      | nil => simp [unlines, join]
      | cons next rest =>
          have others := inductionHypothesis (List.cons_ne_nil next rest)
          rw [List.cons_append] at others
          rw [List.cons_append, List.cons_append, unlines_cons_cons, unlines_cons_cons, others]

/-- Lines are read back as they were written, but for an empty last line. -/
theorem lines_unlines_cases {lines : List Line} (free : ∀ line ∈ lines, '\n' ∉ line ∧ '\r' ∉ line)
    (closed : Bool) :
    Text.lines (unlines lines closed) = lines ∨
      lines = Text.lines (unlines lines closed) ++ [[]] := by
  have settled {written : List Line} {closed : Bool} (inside : written ⊆ lines)
      (filled : closed = false → written.getLast? ≠ some []) :
      Text.lines (unlines written closed) = written := by
    rw [lines_unlines ⟨fun line member => (free line (inside member)).1, filled⟩,
      readBack_of_not_mem fun line member => (free line (inside member)).2]
  by_cases lost : closed = false ∧ lines.getLast? = some []
  · obtain ⟨rfl, last⟩ := lost
    obtain ⟨start, rfl⟩ := List.getLast?_eq_some_iff.mp last
    right
    by_cases empty : start = []
    · rw [empty]
      rfl
    · rw [unlines_append_nil empty, settled (List.subset_append_left start [[]]) (by simp)]
  · exact .inl (settled (List.Subset.refl lines) fun isOpen last => lost ⟨isOpen, last⟩)

section Twice

variable {change : Line → Line} {text : Text}

/-- Up to an empty last line, the replaced lines are the lines of the new text. -/
theorem lines_mapLines_cases (plain : '\r' ∉ text)
    (free : ∀ line c, c = '\n' ∨ c = '\r' → c ∉ line → c ∉ change line) :
    lines (mapLines change text) = (lines text).map change ∨
      (lines text).map change = lines (mapLines change text) ++ [[]] := by
  refine lines_unlines_cases (fun line member => ?_) _
  obtain ⟨old, inside, rfl⟩ := List.mem_map.mp member
  exact ⟨free old '\n' (.inl rfl) ((isCut_lines text).unbroken old inside),
    free old '\r' (.inr rfl) (not_mem_of_mem_lines plain old inside)⟩

theorem exists_of_mem_lines_mapLines (plain : '\r' ∉ text)
    (free : ∀ line c, c = '\n' ∨ c = '\r' → c ∉ line → c ∉ change line) {line : Line}
    (member : line ∈ lines (mapLines change text)) : ∃ old ∈ lines text, change old = line := by
  have inside : line ∈ (lines text).map change := by
    rcases lines_mapLines_cases plain free with same | longer
    · rwa [← same]
    · rw [longer]
      exact List.mem_append_left _ member
  simpa using inside

/-- A line that stays as it is, and is not empty, keeps its place. -/
theorem getElem?_lines_mapLines (plain : '\r' ∉ text)
    (free : ∀ line c, c = '\n' ∨ c = '\r' → c ∉ line → c ∉ change line) {place : Nat} {line : Line}
    (found : (lines text)[place]? = some line) (same : change line = line) (filled : line ≠ []) :
    (lines (mapLines change text))[place]? = some line := by
  have written : ((lines text).map change)[place]? = some line := by
    rw [List.getElem?_map, found, Option.map_some, same]
  rcases lines_mapLines_cases plain free with kept | longer
  · rwa [kept]
  · rw [longer, List.getElem?_append] at written
    split at written
    · exact written
    · have empty : line = [] := by simpa using List.mem_of_getElem? written
      exact absurd empty filled

/-- If a replaced line is not replaced again, neither is the text. -/
theorem mapLines_mapLines (plain : '\r' ∉ text)
    (free : ∀ line c, c = '\n' ∨ c = '\r' → c ∉ line → c ∉ change line)
    (again : ∀ line, change (change line) = change line) :
    mapLines change (mapLines change text) = mapLines change text := by
  have plainToo : '\r' ∉ mapLines change text := by
    refine not_mem_unlines (fun line member => ?_) (by decide) _
    obtain ⟨old, inside, rfl⟩ := List.mem_map.mp member
    exact free old '\r' (.inr rfl) (not_mem_of_mem_lines plain old inside)
  have kept : (lines (mapLines change text)).map change = lines (mapLines change text) := by
    refine (List.map_congr_left fun line member => ?_).trans (List.map_id _)
    obtain ⟨old, -, rfl⟩ := exists_of_mem_lines_mapLines plain free member
    exact again old
  calc mapLines change (mapLines change text)
      = unlines ((lines (mapLines change text)).map change)
          (endsWithNewline (mapLines change text)) := rfl
    _ = mapLines change text := by rw [kept, unlines_lines plainToo]

end Twice

/-! ### A text in front of a line feed -/

/-- The first line of a text begins with what stands before any line feed, but for a carriage
return. -/
theorem exists_lines_eq_cons {line : Line} (unbroken : '\n' ∉ line) (filled : line ≠ [])
    (rest : Text) : ∃ more others, lines (line ++ rest) = (dropReturn line ++ more) :: others := by
  obtain ⟨tail, whole⟩ := dropReturn_isPrefix line
  by_cases feed : '\n' ∈ rest
  · obtain ⟨between, later, rfl, free⟩ := List.eq_append_cons_of_mem feed
    have joined : '\n' ∉ line ++ between := by simp [unbroken, free]
    rw [← List.append_assoc, lines_append_newline joined]
    cases between with
    | nil => exact ⟨[], lines later, by simp⟩
    | cons c between =>
        have kept : line <+: dropReturn (line ++ c :: between) := by
          rw [dropReturn]
          split
          · rw [List.dropLast_append_of_ne_nil (List.cons_ne_nil c between)]
            exact List.prefix_append _ _
          · exact List.prefix_append _ _
        obtain ⟨more, same⟩ := (dropReturn_isPrefix line).trans kept
        exact ⟨more, lines later, by rw [same]⟩
  · have joined : '\n' ∉ line ++ rest := by simp [unbroken, feed]
    refine ⟨tail ++ rest, [], ?_⟩
    rw [lines_of_unbroken joined (by simp [filled]), ← List.append_assoc, whole]

/-- If a text is cut short and closed by a line feed, its lines begin lines of the whole text. -/
theorem mem_lines_of_prefix {start text rest : Text} {line : Line} (part : start <+: text)
    (member : line ∈ lines (start ++ '\n' :: rest)) :
    line = [] ∨ line ∈ lines rest ∨ ∃ whole ∈ lines text, line <+: whole := by
  induction start using linewise generalizing text with
  | empty =>
      rcases List.mem_cons.mp (by simpa [lines] using member) with empty | later
      · exact .inl empty
      · exact .inr (.inl later)
  | single only unbroken filled =>
      obtain ⟨behind, rfl⟩ := part
      rw [lines_append_newline unbroken] at member
      rcases List.mem_cons.mp member with rfl | later
      · obtain ⟨more, others, cut⟩ := exists_lines_eq_cons unbroken filled behind
        exact .inr (.inr ⟨_, by simp [cut], List.prefix_append _ more⟩)
      · exact .inr (.inl later)
  | closed first others unbroken inductionHypothesis =>
      obtain ⟨behind, rfl⟩ := part
      rw [List.append_assoc, List.cons_append, lines_append_newline unbroken] at member ⊢
      rcases List.mem_cons.mp member with rfl | later
      · exact .inr (.inr ⟨_, List.mem_cons_self, List.prefix_rfl⟩)
      · rcases inductionHypothesis (List.prefix_append others behind) later with
          empty | inRest | ⟨whole, inside, begins⟩
        · exact .inl empty
        · exact .inr (.inl inRest)
        · exact .inr (.inr ⟨whole, List.mem_cons_of_mem _ inside, begins⟩)

end Unpacking.Text
