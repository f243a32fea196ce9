import Mathlib.Data.List.Forall2
import Unpacking.Proofs.File.Path
import Unpacking.Report.Document
import Unpacking.Report.Terminal

/-!
What a reader finds in the reports about a run. The document and the lines for a terminal count on
their own. Main statements: `Counts.areOf_ofSummary` and `Tally.foldl_add_eq` say what they count,
`Counts.read?_document` and `forall₂_packages` read the document, and `exists_isGiven` finds its
numbers on the terminal.
-/

namespace Unpacking

open Text

namespace Report

/-! ### What is counted -/

theorem Counts.foldl_addReport (reports : List Analysis.Report) (counts : Counts) :
    reports.foldl Counts.addReport counts =
      { counts with
        completed := counts.completed + reports.length
        managed := counts.managed + reports.countP fun report => report.verdict.packer == .managed
        native := counts.native + reports.countP fun report => report.verdict.packer == .native
        unpackers := counts.unpackers + reports.countP fun report => report.unpacker.isSome } := by
  induction reports generalizing counts with
  | nil => rfl
  | cons report rest inductionHypothesis =>
    rw [List.foldl_cons, inductionHypothesis]
    simp only [addReport, List.length_cons, List.countP_cons]
    cases report.verdict.packer <;> cases report.unpacker.isSome <;> grind

theorem Counts.foldl_add (records : List Record) (counts : Counts) :
    records.foldl Counts.add counts =
      (records.filterMap fun record => record.outcome.report?).foldl Counts.addReport counts := by
  induction records generalizing counts with
  | nil => rfl
  | cons record rest inductionHypothesis =>
    rw [List.foldl_cons, inductionHypothesis, List.filterMap_cons, Counts.add]
    cases record.outcome <;> rfl

theorem Counts.ofSummary_eq (summary : Summary) :
    Counts.ofSummary summary =
      { total := summary.records.length
        completed := summary.reports.length
        packed := summary.packedCount
        managed := summary.reports.countP fun report => report.verdict.packer == .managed
        native := summary.reports.countP fun report => report.verdict.packer == .native
        failed := summary.failedCount
        timedOut := summary.timedOutCount
        unpackers := summary.reports.countP fun report => report.unpacker.isSome } := by
  rw [Counts.ofSummary, Counts.foldl_add, Counts.foldl_addReport]
  simp [Summary.reports]

theorem Tally.foldl_add_eq (reports : List Analysis.Report) (tally : Tally) :
    reports.foldl Tally.add tally =
      { managed := tally.managed + reports.countP fun report => report.verdict.packer == .managed
        native := tally.native + reports.countP fun report => report.verdict.packer == .native
        unpackers := tally.unpackers +
          reports.countP fun report => report.unpacker.isSome } := by
  induction reports generalizing tally with
  | nil => rfl
  | cons report rest inductionHypothesis =>
    rw [List.foldl_cons, inductionHypothesis]
    simp only [Tally.add, List.countP_cons]
    cases report.verdict.packer <;> cases report.unpacker.isSome <;> grind

/-- Numbers that are those of the records and reports in a summary. -/
structure Counts.AreOf (counts : Counts) (summary : Summary) : Prop where
  total : counts.total = summary.records.length
  completed : counts.completed = summary.reports.length
  packed : counts.packed = summary.packedCount
  managed : counts.managed = summary.reports.countP fun report => report.verdict.packer == .managed
  native : counts.native = summary.reports.countP fun report => report.verdict.packer == .native
  failed : counts.failed = summary.failedCount
  timedOut : counts.timedOut = summary.timedOutCount
  unpackers : counts.unpackers = summary.reports.countP fun report => report.unpacker.isSome

theorem Counts.areOf_ofSummary (summary : Summary) : (Counts.ofSummary summary).AreOf summary := by
  rw [Counts.ofSummary_eq]
  exact ⟨rfl, rfl, rfl, rfl, rfl, rfl, rfl, rfl⟩

/-- Every record is counted once. -/
theorem length_records (summary : Summary) :
    summary.records.length =
      summary.reports.length + summary.failedCount + summary.timedOutCount := by
  rw [Summary.reports, Summary.failedCount, Summary.timedOutCount]
  induction summary.records with
  | nil => rfl
  | cons record rest inductionHypothesis =>
    rw [List.length_cons, inductionHypothesis, List.filterMap_cons, List.countP_cons,
      List.countP_cons]
    cases record.outcome <;>
      simp only [PackageOutcome.report?, PackageOutcome.isFailed, PackageOutcome.isTimedOut,
        List.length_cons] <;> simp <;> omega

end Report

/-! ### Reading the document -/

namespace Json

/-- The member of an object with a name. -/
def member? (name : Text) : Json → Option Json
  | .object members => members.lookup name
  | _ => none

/-- A natural number. -/
def natural? : Json → Option Nat
  | .natural value => some value
  | _ => none

end Json

namespace Report

/-- Read the numbers at the end of a document. -/
def Counts.read? (document : Json) : Option Counts := do
  let counts ← document.member? "summary"
  pure {
    total := ← (← counts.member? "total").natural?
    completed := ← (← counts.member? "completed").natural?
    packed := ← (← counts.member? "packed").natural?
    managed := ← (← counts.member? "managed").natural?
    native := ← (← counts.member? "native").natural?
    failed := ← (← counts.member? "failed").natural?
    timedOut := ← (← counts.member? "timed_out").natural?
    unpackers := ← (← counts.member? "unpackers").natural? }

theorem Counts.read?_document (summary : Summary) :
    Counts.read? (document summary) = some (Counts.ofSummary summary) := rfl

/-- The items of the list of packages in a document. -/
def packages? (document : Json) : Option (List Json) :=
  match document.member? "packages" with
  | some (.array items) => some items
  | _ => none

/-- What the document says about a package: its path and the word for its outcome, a result if the
analysis was completed, and an error if not. -/
structure Describes (item : Json) (record : Record) : Prop where
  path : item.member? "path" = some (.string record.input.path)
  outcome : item.member? "outcome" = some (.string record.outcome.label)
  result : (item.member? "result").isSome ↔ ∃ report, record.outcome = .completed report
  error : (item.member? "error").isSome ↔ ¬ ∃ report, record.outcome = .completed report

theorem member?_result (record : Record) :
    (recordJson record).member? "result" =
      record.outcome.report?.map fun report => resultJson report record.unpackerPath := by
  obtain ⟨input, outcome, elapsed, unpackerPath⟩ := record
  cases outcome <;> rfl

theorem member?_error (record : Record) :
    (recordJson record).member? "error" = record.outcome.error?.map Json.string := by
  obtain ⟨input, outcome, elapsed, unpackerPath⟩ := record
  cases outcome <;> rfl

theorem describes_recordJson (record : Record) : Describes (recordJson record) record where
  path := rfl
  outcome := rfl
  result := by
    rw [member?_result, Option.isSome_map]
    cases record.outcome <;> simp [PackageOutcome.report?]
  error := by
    rw [member?_error, Option.isSome_map]
    cases record.outcome <;> simp [PackageOutcome.error?]

/-- The packages of the document follow the records of the run. -/
theorem forall₂_packages (summary : Summary) :
    ∃ items, packages? (document summary) = some items ∧
      List.Forall₂ Describes items summary.records := by
  refine ⟨summary.records.map recordJson, rfl, ?_⟩
  rw [List.forall₂_map_left_iff, List.forall₂_same]
  exact fun record _ => describes_recordJson record

/-! ### Reading the terminal -/

/-- A text without the marks of its styles, each of which goes from an escape character to the next
`m`; `inMark` tells whether the text begins inside a mark. -/
def unstyled (inMark : Bool) : Text → Text
  | [] => []
  | c :: rest =>
    if inMark then unstyled (c != 'm') rest
    else if c == '\x1b' then unstyled true rest
    else c :: unstyled false rest

/-- A styled text shows a plain one, whatever stands behind it. -/
def Shows (styled plain : Text) : Prop :=
  ∀ rest, unstyled false (styled ++ rest) = plain ++ unstyled false rest

theorem shows_of_free {text : Text} (free : '\x1b' ∉ text) : Shows text text := by
  intro rest
  induction text with
  | nil => rfl
  | cons c text inductionHypothesis =>
    rw [List.mem_cons, not_or] at free
    have different : (c == '\x1b') = false := beq_false_of_ne (Ne.symm free.1)
    rw [List.cons_append, unstyled, different, List.cons_append, ← inductionHypothesis free.2]
    rfl

theorem shows_opening (style : Style) : Shows style.opening [] := by
  obtain ⟨bold, dimmed, color⟩ := style
  intro rest
  rcases color with _ | color
  · cases bold <;> cases dimmed <;> rfl
  · cases bold <;> cases dimmed <;> cases color <;> rfl

theorem reopen_of_free {text : Text} (start : Text) (free : '\x1b' ∉ text) :
    Style.reopen start 0 text = text := by
  induction text with
  | nil => rfl
  | cons c text inductionHypothesis =>
    rw [List.mem_cons, not_or] at free
    have different : begins Style.reset (c :: text) = false := by
      simp [begins, Style.reset, List.isPrefixOf, free.1]
    rw [Style.reopen, different, inductionHypothesis free.2]
    rfl

theorem Shows.append {left leftPlain right rightPlain : Text} (leftShows : Shows left leftPlain)
    (rightShows : Shows right rightPlain) : Shows (left ++ right) (leftPlain ++ rightPlain) := by
  intro rest
  rw [List.append_assoc, leftShows, rightShows, List.append_assoc]

/-- A painted text shows the text. -/
theorem shows_paint {text : Text} (style : Style) (colors : Bool) (free : '\x1b' ∉ text) :
    Shows (style.paint colors text) text := by
  rw [Style.paint]
  split
  · have reset : Shows Style.reset [] := fun rest => rfl
    have painted := ((shows_opening style).append (shows_of_free free)).append reset
    rw [reopen_of_free _ free]
    simpa using painted
  · exact shows_of_free free

theorem Shows.unstyled_eq {styled plain : Text} (shows : Shows styled plain) :
    unstyled false styled = plain := by
  have whole := shows []
  rwa [List.append_nil, unstyled, List.append_nil] at whole

theorem shows_join {parts plains : List Text} (shows : List.Forall₂ Shows parts plains) :
    Shows (join ", " parts) (join ", " plains) := by
  induction shows with
  | nil => exact fun rest => rfl
  | @cons part plain parts plains first others inductionHypothesis =>
    cases others with
    | nil => exact first
    | cons second others =>
      have comma : Shows (", " : Text) (", " : Text) := shows_of_free (by decide)
      exact (first.append comma).append inductionHypothesis

/-- The number at the beginning of a text, if a blank and a word are all that stands behind it. -/
def numberBefore? (word text : Text) : Option Nat :=
  let digits := text.takeWhile Char.isDigit
  if !digits.isEmpty && text.dropWhile Char.isDigit == ' ' :: word then
    some (Nat.ofDigitChars 10 digits 0)
  else none

/-- The number that a printed line gives with a word. Commas separate the parts of the line. -/
def number? (word line : Text) : Option Nat :=
  (fields (· == ',') (unstyled false line)).findSome? fun part =>
    numberBefore? word (part.dropWhile (· == ' '))

/-- A number with a word, as it is printed. -/
def item (entry : Nat × Text) : Text :=
  Decimal.ofNat entry.1 ++ ' ' :: entry.2

theorem isDigit_of_mem_ofNat {number : Nat} {c : Char} (member : c ∈ Decimal.ofNat number) :
    c.isDigit = true :=
  Nat.isDigit_of_mem_toDigits (by decide) (by decide) member

theorem not_mem_ofNat (number : Nat) {c : Char} (other : c.isDigit = false) :
    c ∉ Decimal.ofNat number := by
  intro member
  rw [isDigit_of_mem_ofNat member] at other
  simp at other

theorem numberBefore?_item (word : Text) (entry : Nat × Text) :
    numberBefore? word (item entry) = if entry.2 = word then some entry.1 else none := by
  have digits : ∀ c ∈ Decimal.ofNat entry.1, c.isDigit = true := fun c => isDigit_of_mem_ofNat
  have taken : (item entry).takeWhile Char.isDigit = Decimal.ofNat entry.1 := by
    rw [item, List.takeWhile_append_of_pos digits]
    simp
  have left : (item entry).dropWhile Char.isDigit = ' ' :: entry.2 := by
    rw [item, List.dropWhile_append_of_pos digits]
    simp
  have filled : Decimal.ofNat entry.1 ≠ [] := Nat.toDigits_ne_nil
  have value : Nat.ofDigitChars 10 (Decimal.ofNat entry.1) 0 = entry.1 :=
    Nat.ofDigitChars_toDigits (by decide) (by decide)
  simp [numberBefore?, taken, left, filled, value]

theorem dropWhile_blank_item (entry : Nat × Text) :
    (item entry).dropWhile (· == ' ') = item entry := by
  have filled : Decimal.ofNat entry.1 ≠ [] := Nat.toDigits_ne_nil
  rw [item]
  cases digits : Decimal.ofNat entry.1 with
  | nil => exact absurd digits filled
  | cons c rest =>
    have member : c ∈ Decimal.ofNat entry.1 := by
      rw [digits]
      exact List.mem_cons_self
    have isDigit := isDigit_of_mem_ofNat member
    have different : (c == ' ') = false := by
      apply beq_false_of_ne
      rintro rfl
      simp at isDigit
    simp [different]

theorem fields_join_comma (part : Text) (rest : List Text)
    (free : ∀ text ∈ part :: rest, ',' ∉ text) :
    fields (· == ',') (join ", " (part :: rest)) = part :: rest.map (' ' :: ·) := by
  induction rest generalizing part with
  | nil => exact fields_of_not_mem (free part List.mem_cons_self)
  | cons second rest inductionHypothesis =>
    have split : join ", " (part :: second :: rest) =
        part ++ ',' :: ' ' :: join ", " (second :: rest) := by
      simp [join]
    rw [split, fields_append_separator (by rfl),
      fields_of_not_mem (free part List.mem_cons_self), fields,
      inductionHypothesis second fun text member => free text (List.mem_cons_of_mem part member)]
    rfl

/-- The numbers of a printed line are those of its items. -/
theorem number?_of_shows {line : Text} {first : Nat × Text} {rest : List (Nat × Text)}
    (shows : Shows line (join ", " ((first :: rest).map item)))
    (free : ∀ entry ∈ first :: rest, ',' ∉ entry.2) (word : Text) :
    number? word line =
      (first :: rest).findSome? fun entry => if entry.2 = word then some entry.1 else none := by
  have apart : ∀ text ∈ item first :: rest.map item, ',' ∉ text := by
    intro text member
    rw [← List.map_cons] at member
    obtain ⟨entry, isEntry, rfl⟩ := List.mem_map.mp member
    simp [item, not_mem_ofNat entry.1 (show (',').isDigit = false by decide), free entry isEntry]
  have read (entry : Nat × Text) : numberBefore? word ((item entry).dropWhile (· == ' ')) =
      if entry.2 = word then some entry.1 else none := by
    rw [dropWhile_blank_item, numberBefore?_item]
  have readBehindBlank (entry : Nat × Text) :
      numberBefore? word ((' ' :: item entry).dropWhile (· == ' ')) =
        if entry.2 = word then some entry.1 else none := by
    rw [List.dropWhile_cons_of_pos (by rfl)]
    exact read entry
  rw [number?, shows.unstyled_eq, List.map_cons, fields_join_comma _ _ apart, List.map_map]
  simp only [List.findSome?_cons, List.findSome?_map, Function.comp_def, read, readBehindBlank]

/-- An entry for a number that is not zero. -/
def entryFor (number : Nat) (word : Text) : List (Nat × Text) :=
  if number = 0 then [] else [(number, word)]

theorem shows_counted {paint : Text → Text}
    (shows : ∀ text, '\x1b' ∉ text → Shows (paint text) text) (number : Nat) {word : Text}
    (free : '\x1b' ∉ word) :
    List.Forall₂ Shows (counted paint number (' ' :: word)) ((entryFor number word).map item) := by
  rw [counted, entryFor]
  split
  · exact .nil
  · refine .cons (shows _ ?_) .nil
    simp [not_mem_ofNat number (show ('\x1b').isDigit = false by decide), free]

/-- The number that a line must give with a word: none if the number is zero. -/
def unlessZero (number : Nat) : Option Nat :=
  if number = 0 then none else some number

theorem snd_of_mem_entryFor {number : Nat} {word : Text} {entry : Nat × Text}
    (member : entry ∈ entryFor number word) : entry.2 = word := by
  rw [entryFor] at member
  split at member
  · simp at member
  · rw [List.mem_singleton.mp member]

theorem findSome?_entryFor (number : Nat) (word other : Text) :
    ((entryFor number word).findSome? fun entry =>
      if entry.2 = other then some entry.1 else none) =
        if word = other then unlessZero number else none := by
  rw [entryFor, unlessZero]
  split <;> simp

/-- The items of the line that sums up. -/
def summaryEntries (summary : Summary) (tally : Tally) : List (Nat × Text) :=
  (summary.packedCount, "packed".toList) :: (entryFor tally.managed "managed" ++
    entryFor tally.native "native" ++ entryFor summary.failedCount "failed" ++
    entryFor summary.timedOutCount "timed out")

theorem shows_summaryParts (colors : Bool) (summary : Summary) (tally : Tally) :
    Shows (join ", " (summaryParts colors summary tally))
      (join ", " ((summaryEntries summary tally).map item)) := by
  have packed : Shows ((Style.plain .yellow).paint colors
      (Decimal.ofNat summary.packedCount ++ " packed")) (item (summary.packedCount, "packed")) := by
    apply shows_paint
    simp [not_mem_ofNat _ (show ('\x1b').isDigit = false by decide)]
  have plain : ∀ text : Text, '\x1b' ∉ text → Shows (id text) text := fun _ => shows_of_free
  have painted (color : Color) : ∀ text : Text, '\x1b' ∉ text →
      Shows ((Style.plain color).paint colors text) text := fun _ => shows_paint _ colors
  apply shows_join
  rw [summaryEntries, List.map_cons, List.map_append, List.map_append, List.map_append]
  refine List.rel_append (List.rel_append (List.rel_append (.cons packed ?_) ?_) ?_) ?_
  · exact shows_counted plain tally.managed (by decide)
  · exact shows_counted plain tally.native (by decide)
  · exact shows_counted (painted .red) summary.failedCount (by decide)
  · exact shows_counted (painted .yellow) summary.timedOutCount (by decide)

theorem comma_not_mem_summaryEntries {summary : Summary} {tally : Tally} {entry : Nat × Text}
    (member : entry ∈ summaryEntries summary tally) : ',' ∉ entry.2 := by
  simp only [summaryEntries, List.mem_cons, List.mem_append] at member
  rcases member with rfl | ((isEntry | isEntry) | isEntry) | isEntry
  · show ',' ∉ "packed".toList
    decide
  all_goals
    rw [snd_of_mem_entryFor isEntry]
    decide

/-- The line that sums up gives its numbers back. -/
theorem number?_summaryParts (colors : Bool) (summary : Summary) (tally : Tally) :
    let line := join ", " (summaryParts colors summary tally)
    number? "packed" line = some summary.packedCount ∧
      number? "managed" line = unlessZero tally.managed ∧
      number? "native" line = unlessZero tally.native ∧
      number? "failed" line = unlessZero summary.failedCount ∧
      number? "timed out" line = unlessZero summary.timedOutCount := by
  intro line
  have read := number?_of_shows (shows_summaryParts colors summary tally)
    fun _ => comma_not_mem_summaryEntries
  refine ⟨?_, ?_, ?_, ?_, ?_⟩
  all_goals
    rw [read, List.findSome?_cons, List.findSome?_append, List.findSome?_append,
      List.findSome?_append, findSome?_entryFor, findSome?_entryFor, findSome?_entryFor,
      findSome?_entryFor]
    simp

/-- Numbers as a terminal gives them: the line that sums up leaves out all zeros but that of the
packed apps, and the line about unpackers is there unless its number is zero. -/
structure Counts.IsGiven (counts : Counts) (sums unpackers : Text) : Prop where
  packed : number? "packed" sums = some counts.packed
  managed : number? "managed" sums = unlessZero counts.managed
  native : number? "native" sums = unlessZero counts.native
  failed : number? "failed" sums = unlessZero counts.failed
  timedOut : number? "timed out" sums = unlessZero counts.timedOut
  unpackers : unstyled false unpackers =
    if counts.unpackers = 0 then [] else line ("Unpackers: " ++ Decimal.ofNat counts.unpackers)

theorem unstyled_unpackersLine (colors : Bool) (number : Nat) :
    unstyled false (if number = 0 then []
      else line ("Unpackers: " ++ (Style.plain .green).paint colors (Decimal.ofNat number))) =
        if number = 0 then [] else line ("Unpackers: " ++ Decimal.ofNat number) := by
  split
  · rfl
  · have word : Shows ("Unpackers: " : Text) ("Unpackers: " : Text) := shows_of_free (by decide)
    have free : '\x1b' ∉ Decimal.ofNat number := not_mem_ofNat number (by decide)
    have ending : Shows ("\n" : Text) ("\n" : Text) := shows_of_free (by decide)
    exact ((word.append (shows_paint (Style.plain .green) colors free)).append ending).unstyled_eq

/-- A run with packages is printed with the numbers of its document at the end. -/
theorem exists_isGiven (options : TerminalOptions) {summary : Summary}
    (filled : summary.records ≠ []) :
    ∃ sums unpackers, (Counts.ofSummary summary).IsGiven sums unpackers ∧
      line ("Summary: " ++ sums) ++ unpackers ++
          line ("Results: " ++ (Style.plain .cyan).paint options.colors summary.outputDirectory) <:+
        terminal options summary := by
  let tally := summary.reports.foldl Tally.add {}
  have areOf := Counts.areOf_ofSummary summary
  have tallied : tally = { managed := (Counts.ofSummary summary).managed
                           native := (Counts.ofSummary summary).native
                           unpackers := (Counts.ofSummary summary).unpackers } := by
    rw [areOf.managed, areOf.native, areOf.unpackers]
    simpa using Tally.foldl_add_eq summary.reports {}
  obtain ⟨packed, managed, native, failed, timedOut⟩ :=
    number?_summaryParts options.colors summary tally
  have unpackers := unstyled_unpackersLine options.colors tally.unpackers
  have given : (Counts.ofSummary summary).IsGiven _ _ :=
    { packed := by rw [areOf.packed]; exact packed
      managed := by rw [managed, tallied]
      native := by rw [native, tallied]
      failed := by rw [areOf.failed]; exact failed
      timedOut := by rw [areOf.timedOut]; exact timedOut
      unpackers := by rw [unpackers, tallied] }
  have closing : closingLines options.colors summary <:+ terminal options summary := by
    rw [terminal, if_neg (by simpa using filled)]
    exact List.suffix_append _ _
  let rule := line [] ++ line (Style.faint.paint options.colors (List.replicate 60 '─'))
  refine ⟨_, _, given, List.IsSuffix.trans ⟨rule, ?_⟩ closing⟩
  simp only [closingLines, rule, tally, List.append_assoc]

end Report

end Unpacking
