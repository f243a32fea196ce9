import Unpacking.Proofs.Text.Reading
import Unpacking.Reflection.Assignment
import Unpacking.Reflection.Term

/-!
Where a name stands on a line. A name holds no delimiter, so it stands where a whole run of name
characters stands.
-/

namespace Unpacking.Reflection

open Text

/-! ### Names and delimiters -/

/-- The codes of the blank characters. -/
def blankCodes : List Nat :=
  List.range' 9 5 ++ List.range' 0x2000 11 ++
    [0x20, 0x85, 0xA0, 0x1680, 0x2028, 0x2029, 0x202F, 0x205F, 0x3000]

theorem mem_blankCodes {c : Char} (blank : isBlank c = true) : c.toNat ∈ blankCodes := by
  simp only [isBlank, Bool.or_eq_true, Bool.and_eq_true, decide_eq_true_eq, beq_iff_eq] at blank
  simp only [blankCodes, List.mem_append, List.mem_range'_1, List.mem_cons, List.not_mem_nil,
    or_false]
  omega

theorem isNameCharacter_of_isBlank {c : Char} (blank : isBlank c = true) :
    isNameCharacter c = false := by
  have each : ∀ code ∈ blankCodes, isNameCharacter (Char.ofNat code) = false := by
    decide +kernel
  have here := each c.toNat (mem_blankCodes blank)
  rwa [Char.ofNat_toNat] at here

theorem isNameCharacter_of_isDelimiter {c : Char} (delimiter : isDelimiter c = true) :
    isNameCharacter c = false := by
  simp only [isDelimiter, Bool.or_eq_true, List.contains_iff_mem] at delimiter
  rcases delimiter with blank | mark
  · exact isNameCharacter_of_isBlank blank
  · have each : ("[].()!=,+;?:" : Text).all (!isNameCharacter ·) = true := by decide +kernel
    simpa using List.all_eq_true.mp each c mark

theorem IsName.not_mem {term : Text} {c : Char} (name : IsName term)
    (other : isNameCharacter c = false) : c ∉ term := by
  intro member
  have inside := name.2 c member
  rw [other] at inside
  exact Bool.noConfusion inside

/-! ### Occurrences -/

theorem standsAt_append_return {term : Text} (name : IsName term) (text : Text) :
    standsAt term (text ++ ['\r']) = standsAt term text := by
  have delimiter : isDelimiter '\r' = true := by decide
  rw [standsAt, standsAt, after?_append_return (IsName.not_mem name (by decide))]
  cases after? term text with
  | none => rfl
  | some rest =>
      cases rest with
      | nil => exact delimiter
      | cons c rest => rfl

theorem standsAt_nil {term : Text} (name : IsName term) : standsAt term [] = false := by
  obtain ⟨c, term, rfl⟩ := List.exists_cons_of_ne_nil name.1
  rfl

/-- A carriage return at the end of a line delimits a name as the end of the line does. -/
theorem occurs_append_return {term : Text} (name : IsName term) (line : Text) :
    occurs term (line ++ ['\r']) = occurs term line := by
  have behind (text : Text) : standsBehind term (text ++ ['\r']) = standsBehind term text := by
    induction text with
    | nil => simp [standsBehind, standsAt_nil name]
    | cons c text inductionHypothesis =>
        rw [List.cons_append, standsBehind, standsBehind, standsAt_append_return name,
          inductionHypothesis]
  rw [occurs, occurs, standsAt_append_return name, behind]

theorem standsAt_append_return_of_standsAt {term text : Text} (stands : standsAt term text = true) :
    standsAt term (text ++ ['\r']) = true := by
  have delimiter : isDelimiter '\r' = true := by decide
  rw [standsAt] at stands
  split at stands
  · rename_i c rest found
    rw [standsAt, after?_eq_some found, List.append_assoc, after?_append]
    exact stands
  · rename_i found
    rw [standsAt, after?_eq_some found, List.append_assoc, after?_append]
    exact delimiter
  · simp at stands

/-- A carriage return at the end of a line takes no occurrence away. -/
theorem occurs_append_return_of_occurs {term line : Text} (found : occurs term line = true) :
    occurs term (line ++ ['\r']) = true := by
  have behind (text : Text) (stands : standsBehind term text = true) :
      standsBehind term (text ++ ['\r']) = true := by
    induction text with
    | nil => simp [standsBehind] at stands
    | cons c text inductionHypothesis =>
        simp only [standsBehind, Bool.or_eq_true, Bool.and_eq_true] at stands
        simp only [List.cons_append, standsBehind, Bool.or_eq_true, Bool.and_eq_true]
        exact stands.imp (fun here => ⟨here.1, standsAt_append_return_of_standsAt here.2⟩)
          inductionHypothesis
  rw [occurs, Bool.or_eq_true] at found ⊢
  exact found.imp standsAt_append_return_of_standsAt (behind line)

/-- A name that stands at the front of a text is the whole run of name characters there. -/
theorem eq_takeWhile_of_standsAt {term text : Text} (name : IsName term)
    (stands : standsAt term text = true) : term = text.takeWhile isNameCharacter := by
  unfold standsAt at stands
  split at stands
  · rename_i c rest found
    rw [after?_eq_some found, List.takeWhile_append_of_pos name.2, List.takeWhile_cons,
      isNameCharacter_of_isDelimiter stands]
    simp
  · rename_i found
    rw [after?_eq_some found, List.takeWhile_append_of_pos name.2]
    simp
  · simp at stands

/-- The runs of name characters behind the delimiters of a text. -/
def runsBehind : Text → List Text
  | [] => []
  | c :: rest =>
    if isDelimiter c then rest.takeWhile isNameCharacter :: runsBehind rest else runsBehind rest

/-- A name that occurs is the run at the front or one behind a delimiter. -/
theorem mem_runs_of_occurs {term text : Text} (name : IsName term)
    (found : occurs term text = true) :
    term ∈ text.takeWhile isNameCharacter :: runsBehind text := by
  have behind (text : Text) (stands : standsBehind term text = true) :
      term ∈ runsBehind text := by
    induction text with
    | nil => simp [standsBehind] at stands
    | cons c text inductionHypothesis =>
        rw [standsBehind, Bool.or_eq_true, Bool.and_eq_true] at stands
        rw [runsBehind]
        rcases stands with ⟨delimiter, front⟩ | deeper
        · rw [if_pos delimiter, ← eq_takeWhile_of_standsAt name front]
          exact List.mem_cons_self
        · have inside := inductionHypothesis deeper
          split
          · exact List.mem_cons_of_mem _ inside
          · exact inside
  rw [occurs, Bool.or_eq_true] at found
  rcases found with front | stands
  · rw [← eq_takeWhile_of_standsAt name front]
    exact List.mem_cons_self
  · exact List.mem_cons_of_mem _ (behind text stands)

/-- The indentation of a line holds no name. -/
theorem occurs_trimStart {term : Text} (name : IsName term) (line : Text) :
    occurs term (trimStart line) = occurs term line := by
  induction line with
  | nil => rfl
  | cons c line inductionHypothesis =>
      by_cases blank : isBlank c = true
      · have front : standsAt term (c :: line) = false := by
          rw [Bool.eq_false_iff]
          intro stands
          have same := eq_takeWhile_of_standsAt name stands
          rw [List.takeWhile_cons, isNameCharacter_of_isBlank blank] at same
          exact name.1 same
        have delimiter : isDelimiter c = true := by simp [isDelimiter, blank]
        have skipped : occurs term (c :: line) = occurs term line := by
          rw [occurs, front, standsBehind, delimiter, Bool.false_or, Bool.true_and, occurs]
        rw [skipped, ← inductionHypothesis, trimStart, List.dropWhile_cons_of_pos blank, trimStart]
      · rw [trimStart, List.dropWhile_cons_of_neg blank]

/-! ### Assigned names -/

theorem isNameCharacter_of_isVariableCharacter {c : Char}
    (inVariable : isVariableCharacter c = true) : isNameCharacter c = true := by
  simp only [isVariableCharacter, Bool.or_eq_true, beq_iff_eq] at inVariable
  rcases inVariable with (alphanumeric | rfl) | rfl
  · have small : c.toNat < 128 := by
      have ranges : (decide (c.val ≥ 'A'.val ∧ c.val ≤ 'Z'.val) ||
          (decide (c.val ≥ 'a'.val) && decide (c.val ≤ 'z'.val)) ||
          (decide (c.val ≥ '0'.val) && decide (c.val ≤ '9'.val))) = true := alphanumeric
      simp only [Bool.or_eq_true, Bool.and_eq_true, decide_eq_true_eq] at ranges
      change c.val.toNat < 128
      rcases ranges with (⟨_, high⟩ | ⟨_, high⟩) | ⟨_, high⟩
      · exact Nat.lt_of_le_of_lt (UInt32.le_iff_toNat_le.mp high) (by decide)
      · exact Nat.lt_of_le_of_lt (UInt32.le_iff_toNat_le.mp high) (by decide)
      · exact Nat.lt_of_le_of_lt (UInt32.le_iff_toNat_le.mp high) (by decide)
    simp [isNameCharacter, isWord, small, isAsciiWord, alphanumeric]
  · decide
  · decide

theorem assignmentAt?_eq_some_iff {text : Text} {assignment : Assignment} :
    assignmentAt? text = some assignment ↔
      ∃ c rest, trimStart (text.dropWhile isVariableCharacter) = '=' :: c :: rest ∧ c ≠ '=' ∧
        text.takeWhile isVariableCharacter ≠ [] ∧
        assignment = { name := text.takeWhile isVariableCharacter, value := c :: rest } := by
  simp only [assignmentAt?]
  constructor
  · intro found
    split at found
    · rename_i first more c rest taken behind
      split at found
      · simp at found
      · rename_i other
        exact ⟨c, rest, behind, by simpa using other, by simp [taken],
          (Option.some.inj found).symm⟩
    · simp at found
  · rintro ⟨c, rest, behind, other, filled, rfl⟩
    obtain ⟨first, more, taken⟩ := List.exists_cons_of_ne_nil filled
    simp [taken, behind, other]

/-- The name of an assignment at the front of a text is the run of variable characters there. -/
theorem name_of_assignmentAt? {text : Text} {assignment : Assignment}
    (found : assignmentAt? text = some assignment) :
    assignment.name = text.takeWhile isVariableCharacter ∧ assignment.name ≠ [] := by
  obtain ⟨c, rest, -, -, filled, rfl⟩ := assignmentAt?_eq_some_iff.mp found
  exact ⟨rfl, filled⟩

/-- An assigned name is a part of its line. -/
theorem name_of_assignment? {line : Text} {assignment : Assignment}
    (found : assignment? line = some assignment) :
    IsName assignment.name ∧ assignment.name <:+: line := by
  induction line with
  | nil => simp [assignment?] at found
  | cons c line inductionHypothesis =>
      rw [assignment?] at found
      split at found
      · rename_i here front
        rw [Option.some.injEq] at found
        subst here
        obtain ⟨name, filled⟩ := name_of_assignmentAt? front
        refine ⟨⟨filled, fun d member => ?_⟩, ?_⟩
        · rw [name] at member
          exact isNameCharacter_of_isVariableCharacter (List.mem_takeWhile_imp member)
        · rw [name]
          exact (List.takeWhile_prefix _).isInfix
      · obtain ⟨isName, inside⟩ := inductionHypothesis found
        exact ⟨isName, inside.trans (List.suffix_cons c line).isInfix⟩

/-- The indentation of a line assigns nothing. -/
theorem assignment?_trimStart (line : Text) : assignment? (trimStart line) = assignment? line := by
  induction line with
  | nil => rfl
  | cons c line inductionHypothesis =>
      by_cases blank : isBlank c = true
      · have other : isVariableCharacter c = false := by
          rw [Bool.eq_false_iff]
          intro inVariable
          have inName := isNameCharacter_of_isVariableCharacter inVariable
          rw [isNameCharacter_of_isBlank blank] at inName
          exact Bool.noConfusion inName
        have front : assignmentAt? (c :: line) = none := by
          simp [assignmentAt?, other]
        have skipped : assignment? (c :: line) = assignment? line := by
          rw [assignment?, front]
        rw [skipped, ← inductionHypothesis, trimStart, List.dropWhile_cons_of_pos blank, trimStart]
      · rw [trimStart, List.dropWhile_cons_of_neg blank]

/-- The value of an assignment is the text behind an equals sign, and it is not empty. -/
theorem split_of_assignment? {text : Text} {assignment : Assignment}
    (found : assignment? text = some assignment) :
    ∃ front, text = front ++ '=' :: assignment.value ∧ assignment.value ≠ [] := by
  induction text with
  | nil => simp [assignment?] at found
  | cons c text inductionHypothesis =>
      rw [assignment?] at found
      split at found
      · rename_i here front
        obtain rfl := Option.some.inj found
        obtain ⟨d, rest, behind, -, -, rfl⟩ := assignmentAt?_eq_some_iff.mp front
        have suffix : '=' :: d :: rest <:+ c :: text :=
          behind ▸ (trimStart_suffix _).trans (List.dropWhile_suffix _)
        obtain ⟨before, whole⟩ := suffix
        exact ⟨before, whole.symm, by simp⟩
      · obtain ⟨front, whole, filled⟩ := inductionHypothesis found
        exact ⟨c :: front, by rw [whole]; rfl, filled⟩

theorem assignmentAt?_append_return {text : Text} {assignment : Assignment}
    (found : assignmentAt? text = some assignment) :
    assignmentAt? (text ++ ['\r']) =
      some { assignment with value := assignment.value ++ ['\r'] } := by
  obtain ⟨c, rest, behind, other, filled, rfl⟩ := assignmentAt?_eq_some_iff.mp found
  rw [assignmentAt?_eq_some_iff, takeWhile_append_mark (by decide),
    dropWhile_append_mark (by decide), trimStart_append_return, behind]
  exact ⟨c, rest ++ ['\r'], rfl, other, filled, rfl⟩

/-- An assignment needs more than an equals sign at the end of its text. -/
theorem assignment?_of_closing {text : Text}
    (closing : trimStart (text.dropWhile isVariableCharacter) = ['=']) :
    assignment? text = none := by
  rw [Option.eq_none_iff_forall_ne_some]
  intro assignment assigns
  obtain ⟨front, whole, filled⟩ := split_of_assignment? assigns
  have parts : text = text.takeWhile isVariableCharacter ++
      (text.dropWhile isVariableCharacter).takeWhile isBlank ++ ['='] := by
    rw [← closing, trimStart, List.append_assoc, List.takeWhile_append_dropWhile,
      List.takeWhile_append_dropWhile]
  obtain ⟨value, last, same⟩ := List.eq_nil_or_concat assignment.value |>.resolve_left filled
  rw [same, List.concat_eq_append, ← List.cons_append, ← List.append_assoc] at whole
  have core := (List.append_inj' (parts.symm.trans whole) rfl).1
  have inside : '=' ∈ text.takeWhile isVariableCharacter ++
      (text.dropWhile isVariableCharacter).takeWhile isBlank := by
    rw [core]
    simp
  rcases List.mem_append.mp inside with inName | inBlanks
  · exact absurd (List.mem_takeWhile_imp inName) (by decide)
  · exact absurd (List.mem_takeWhile_imp inBlanks) (by decide)

theorem assignmentAt?_append_return_of_none {text : Text} {assignment : Assignment}
    (absent : assignmentAt? text = none) (assigns : assignment? text = some assignment) :
    assignmentAt? (text ++ ['\r']) = none := by
  rw [Option.eq_none_iff_forall_ne_some]
  intro made found
  obtain ⟨c, rest, behind, other, filled, -⟩ := assignmentAt?_eq_some_iff.mp found
  rw [takeWhile_append_mark (by decide)] at filled
  rw [dropWhile_append_mark (by decide), trimStart_append_return] at behind
  split at behind
  · simp at behind
  · rcases List.eq_nil_or_concat rest with rfl | ⟨tail, last, rfl⟩
    · rw [show ['=', c] = ['='] ++ [c] from rfl] at behind
      rw [assignment?_of_closing (List.append_inj' behind rfl).1] at assigns
      simp at assigns
    · rw [List.concat_eq_append, ← List.cons_append, ← List.cons_append] at behind
      have present := assignmentAt?_eq_some_iff.mpr
        ⟨c, tail, (List.append_inj' behind rfl).1, other, filled, rfl⟩
      rw [absent] at present
      simp at present

/-- A carriage return at the end of a line goes into the value of its first assignment. -/
theorem assignment?_append_return {text : Text} {assignment : Assignment}
    (found : assignment? text = some assignment) :
    assignment? (text ++ ['\r']) =
      some { assignment with value := assignment.value ++ ['\r'] } := by
  induction text with
  | nil => simp [assignment?] at found
  | cons c text inductionHypothesis =>
      cases front : assignmentAt? (c :: text) with
      | some here =>
          rw [assignment?, front] at found
          obtain rfl := Option.some.inj found
          rw [List.cons_append, assignment?, ← List.cons_append, assignmentAt?_append_return front]
      | none =>
          have later := assignmentAt?_append_return_of_none front found
          rw [assignment?, front] at found
          rw [List.cons_append] at later ⊢
          rw [assignment?, later]
          exact inductionHypothesis found

end Unpacking.Reflection
