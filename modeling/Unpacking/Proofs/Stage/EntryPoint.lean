import Mathlib.Algebra.GroupWithZero.Nat
import Mathlib.Algebra.Ring.Int.Defs
import Unpacking.Proofs.Stage.Inert
import Unpacking.Proofs.Text.WholeWord

/-!
The body of the entry point. It reaches from the header to the first line that leaves no brace open.
Inside of it every use of the context parameter is replaced, and outside of it nothing changes. Main
statement: `entryPoint_isScoped`.
-/

namespace Unpacking.Stage

open Text Line

/-- The braces that some lines leave open. -/
def openBraces (lines : List Line) : Int :=
  (lines.map braceBalance).sum

/-- The lines of a body behind its header. A brace is open before each of them, and none behind the
last one, unless the text ends there. -/
structure IsBody (header : Line) (body after : List Line) : Prop where
  isOpen : ∀ start rest, body = start ++ rest → rest ≠ [] → 0 < openBraces (header :: start)
  ends : openBraces (header :: body) ≤ 0 ∨ after = []

/-- The header of the main method. -/
def mainHeader : Text :=
  "public static void main(String[] args)"

/-- A line of the body before and after the parameter is replaced. -/
def IsBodyLine (parameter standIn : Text) (old new : Line) : Prop :=
  if isLineComment old then new = old else IsReplaced parameter standIn old new

/-- A line of the body with the stand-in for the parameter. -/
def withStandIn (parameter standIn : Text) (line : Line) : Line :=
  if isLineComment line then line
  else (Pattern.wholeWord parameter).replaceAll (fun _ => standIn) line

/-- The number of uses of the parameter on a line of the body. -/
def uses (parameter : Text) (line : Line) : Nat :=
  if isLineComment line then 0 else (Pattern.wholeWord parameter).count line

variable {parameter standIn : Text} {line : Line} {header : ContextHeader}

/-! ### The end of the body -/

theorem openBraces_cons (line : Line) (lines : List Line) :
    openBraces (line :: lines) = braceBalance line + openBraces lines := by
  rw [openBraces, List.map_cons, List.sum_cons, openBraces]

/-- A line that lowers the depth closes a brace. -/
theorem mem_of_braceBalance_neg (falls : braceBalance line < 0) : '}' ∈ line := by
  induction line with
  | nil => exact absurd falls (by decide)
  | cons c line inductionHypothesis =>
      rw [braceBalance_cons] at falls
      by_cases closing : c = '}'
      · rw [closing]
        exact List.mem_cons_self
      · have step : 0 ≤ braceStep c := by
          rw [braceStep, if_neg closing]
          split <;> decide
        exact List.mem_cons_of_mem c (inductionHypothesis (by omega))

theorem replaceInBody_cons (parameter standIn : Text) (depth : Int) (line : Line)
    (rest : List Line) :
    replaceInBody parameter standIn depth (line :: rest) =
      if depth + braceBalance line ≤ 0 ∧ '}' ∈ line then
        (withStandIn parameter standIn line :: rest, uses parameter line)
      else
        (withStandIn parameter standIn line ::
            (replaceInBody parameter standIn (depth + braceBalance line) rest).1,
          uses parameter line +
            (replaceInBody parameter standIn (depth + braceBalance line) rest).2) := by
  simp only [replaceInBody, withStandIn, uses, replaceParameter, Bool.and_eq_true,
    decide_eq_true_eq, List.contains_iff_mem]
  cases isLineComment line <;> rfl

/-- The parameter is replaced up to the first line that leaves no brace open. -/
theorem replaceInBody_eq (parameter standIn : Text) {depth : Int} (deep : 0 < depth)
    (lines : List Line) :
    ∃ body after, lines = body ++ after ∧
      (∀ start rest, body = start ++ rest → rest ≠ [] → 0 < depth + openBraces start) ∧
      (depth + openBraces body ≤ 0 ∨ after = []) ∧
      replaceInBody parameter standIn depth lines =
        (body.map (withStandIn parameter standIn) ++ after, (body.map (uses parameter)).sum) := by
  induction lines generalizing depth with
  | nil =>
      refine ⟨[], [], rfl, ?_, .inr rfl, rfl⟩
      intro start rest split filled
      exact absurd (List.append_eq_nil_iff.mp split.symm).2 filled
  | cons line lines inductionHypothesis =>
      rw [replaceInBody_cons]
      by_cases shut : depth + braceBalance line ≤ 0
      · have closes : '}' ∈ line := mem_of_braceBalance_neg (by omega)
        rw [if_pos ⟨shut, closes⟩]
        refine ⟨[line], lines, rfl, ?_, ?_, by simp⟩
        · intro start rest split filled
          cases start with
          | nil => simpa [openBraces] using deep
          | cons first start =>
              obtain ⟨-, nothing⟩ := List.cons.inj split
              exact absurd (List.append_eq_nil_iff.mp nothing.symm).2 filled
        · left
          simpa [openBraces] using shut
      · rw [if_neg fun closed => shut closed.1]
        obtain ⟨body, after, rfl, isOpen, ends, same⟩ := inductionHypothesis (not_le.mp shut)
        refine ⟨line :: body, after, rfl, ?_, ?_, ?_⟩
        · intro start rest split filled
          cases start with
          | nil => simpa [openBraces] using deep
          | cons first start =>
              obtain ⟨rfl, tail⟩ := List.cons.inj split
              have behind := isOpen start rest tail filled
              rw [openBraces_cons]
              omega
        · rw [openBraces_cons, ← Int.add_assoc]
          exact ends
        · rw [same]
          simp

/-! ### The first header -/

theorem replaceEntryPoint_append {front : List Line}
    (first : ∀ other ∈ front, codeHeader? other = none) (standIn : Text) (lines : List Line) :
    replaceEntryPoint standIn (front ++ lines) =
      (front ++ (replaceEntryPoint standIn lines).1, (replaceEntryPoint standIn lines).2) := by
  induction front with
  | nil => rfl
  | cons line front inductionHypothesis =>
      have others := inductionHypothesis fun other member => first other (by simp [member])
      rw [List.cons_append, replaceEntryPoint, first line (by simp)]
      dsimp only
      rw [others]
      rfl

/-- Behind the first header the body follows, and then the lines that are left alone. -/
theorem replaceEntryPoint_cons (found : codeHeader? line = some header) (opens : '{' ∈ line)
    (standIn : Text) (rest : List Line) :
    ∃ body after, rest = body ++ after ∧ IsBody line body after ∧
      replaceEntryPoint standIn (line :: rest) =
        ((header.indentation ++ mainHeader ++
            (Pattern.wholeWord header.parameter).replaceAll (fun _ => standIn) header.rest) ::
          (body.map (withStandIn header.parameter standIn) ++ after),
          some header.parameter,
          (Pattern.wholeWord header.parameter).count header.rest +
            (body.map (uses header.parameter)).sum) := by
  have opensToo : line.contains '{' = true := List.contains_iff_mem.mpr opens
  rw [replaceEntryPoint, found]
  simp only [opensToo, Bool.not_true, Bool.or_false, decide_eq_true_eq]
  by_cases deep : 0 < braceBalance line
  · obtain ⟨body, after, rfl, isOpen, ends, same⟩ :=
      replaceInBody_eq header.parameter standIn deep rest
    refine ⟨body, after, rfl, ⟨?_, ?_⟩, ?_⟩
    · intro start rest split filled
      rw [openBraces_cons]
      exact isOpen start rest split filled
    · rw [openBraces_cons]
      exact ends
    · rw [if_pos deep, same]
      rfl
  · refine ⟨[], rest, rfl, ⟨?_, ?_⟩, ?_⟩
    · intro start rest split filled
      exact absurd (List.append_eq_nil_iff.mp split.symm).2 filled
    · left
      rw [openBraces_cons]
      simpa [openBraces] using deep
    · rw [if_neg deep]
      rfl

/-! ### What is replaced -/

theorem contextHeader?_of_codeHeader? (found : codeHeader? line = some header) :
    contextHeader? line = some header := by
  rw [codeHeader?] at found
  split at found
  · exact absurd found (by simp)
  · exact found

theorem mem_of_mem_withStandIn {c : Char} (member : c ∈ withStandIn parameter standIn line) :
    c ∈ line ∨ c ∈ standIn := by
  rw [withStandIn] at member
  split at member
  · exact .inl member
  · exact Pattern.mem_of_mem_replaceAll member

section Parameter

variable (filled : parameter ≠ []) (members : ∀ c ∈ parameter, isWord c = true)

include filled members

theorem isBodyLine_withStandIn
    (free : occurrences parameter none standIn = 0) (line : Line) :
    IsBodyLine parameter standIn line (withStandIn parameter standIn line) := by
  rw [IsBodyLine, withStandIn]
  split
  · rfl
  · exact isReplaced_replaceAll filled members free line

theorem sum_uses (body : List Line) :
    (body.map (uses parameter)).sum =
      ((body.filter fun line => !isLineComment line).map (occurrences parameter none)).sum := by
  induction body with
  | nil => rfl
  | cons line body inductionHypothesis =>
      rw [List.map_cons, List.sum_cons, inductionHypothesis, uses, List.filter_cons]
      cases isLineComment line with
      | true => simp
      | false => simp [count_wholeWord filled members]

/-- Behind the indentation of the main method the parameter stands in its header only. -/
theorem within_mainHeader {lead tail : Text} (blank : ∀ c ∈ lead, isBlank c = true)
    (gone : occurrences parameter none tail = 0) {place : Nat}
    (alone : isWholeWordAt parameter none (lead ++ mainHeader ++ tail) place = true) :
    lead.length ≤ place ∧ place + parameter.length ≤ lead.length + mainHeader.length := by
  have positive : 0 < parameter.length := List.length_pos_iff.mpr filled
  have inWord (index : Nat) (inside : index < parameter.length) (c : Char)
      (found : (lead ++ mainHeader ++ tail)[place + index]? = some c) : isWord c = true := by
    rw [getElem?_of_isWholeWordAt filled alone inside] at found
    exact members c (List.mem_of_getElem? found)
  have closing : (lead ++ mainHeader ++ tail)[lead.length + 37]? = some ')' := by
    rw [List.append_assoc, List.getElem?_append_right (Nat.le_add_right _ _),
      Nat.add_sub_cancel_left]
    rfl
  have size : mainHeader.length = 38 := rfl
  constructor
  · by_contra short
    have inLead : (lead ++ mainHeader ++ tail)[place + 0]? = some lead[place] := by
      rw [List.append_assoc, List.getElem?_append_left (by omega), Nat.add_zero,
        List.getElem?_eq_getElem]
    have other := isWord_of_isBlank (blank lead[place] (List.getElem_mem _))
    rw [inWord 0 positive _ inLead] at other
    exact absurd other (by decide)
  · by_contra long
    by_cases behind : lead.length + mainHeader.length ≤ place
    · obtain ⟨distance, rfl⟩ := Nat.exists_eq_add_of_le behind
      have last : lastOr none (lead ++ mainHeader) = some ')' := by
        rw [Pattern.lastOr_append]
        rfl
      rw [← List.length_append, isWholeWordAt_append_add, last,
        isWholeWordAt_congr (show isWordAt (some ')') = isWordAt none from by decide),
        (occurrences_eq_zero_iff filled).mp gone] at alone
      exact absurd alone (by decide)
    · have there : place + (lead.length + 37 - place) = lead.length + 37 := by omega
      have inside := inWord (lead.length + 37 - place) (by omega) ')' (by rw [there, closing])
      exact absurd inside (by decide)

end Parameter

/-! ### The scope of the replacement -/

/-- What becomes of a class with an entry point. The first line of its body is its header, and the
parameter is replaced behind it and on the lines of code of the body. -/
structure IsScoped (standIn : Text) (front : List Line) (header : ContextHeader)
    (body after : List Line) (result : EntryPoint) : Prop where
  written : ∃ tail newBody,
    result.text = unlines (front ++ (header.indentation ++ mainHeader ++ tail) ::
      (newBody ++ after)) true ∧
    IsReplaced header.parameter standIn header.rest tail ∧
    List.Forall₂ (IsBodyLine header.parameter standIn) body newBody ∧
    ∀ place,
      isWholeWordAt header.parameter none (header.indentation ++ mainHeader ++ tail) place = true →
        header.indentation.length ≤ place ∧
          place + header.parameter.length ≤ header.indentation.length + mainHeader.length
  length : (lines result.text).length = front.length + (1 + (body.length + after.length))
  parameter : result.parameter = some header.parameter
  replacements : result.replacements = occurrences header.parameter none header.rest +
    ((body.filter fun line => !isLineComment line).map (occurrences header.parameter none)).sum

theorem entryPoint_of_none {text : Text} (plain : '\r' ∉ text)
    (nowhere : ∀ line ∈ lines text, codeHeader? line = none) (standIn : Text) :
    entryPoint standIn text = { text, parameter := none, replacements := 0 } := by
  have same := replaceEntryPoint_append nowhere standIn []
  rw [List.append_nil] at same
  simp only [entryPoint, same, replaceEntryPoint, List.append_nil, unlines_lines plain]

/-- No line of the body or of its header is broken by a stand-in without line feeds. -/
theorem unbroken_replaced (unbroken : '\n' ∉ standIn) (found : codeHeader? line = some header)
    {front body after : List Line}
    (whole : ∀ other ∈ front ++ line :: (body ++ after), '\n' ∉ other) :
    ∀ other ∈ front ++ (header.indentation ++ mainHeader ++
      (Pattern.wholeWord header.parameter).replaceAll (fun _ => standIn) header.rest) ::
        (body.map (withStandIn header.parameter standIn) ++ after), '\n' ∉ other := by
  obtain ⟨-, indented, lead, split⟩ :=
    contextHeader?_eq_some (contextHeader?_of_codeHeader? found)
  have inLine : '\n' ∉ line := whole line (by simp)
  intro other member
  simp only [List.mem_append, List.mem_cons, List.mem_map] at member
  rcases member with inFront | rfl | ⟨old, inBody, rfl⟩ | inAfter
  · exact whole other (by simp [inFront])
  · have inIndentation : '\n' ∉ header.indentation := by
      rw [indented]
      exact fun member => inLine ((List.takeWhile_prefix _).mem member)
    have inHeader : '\n' ∉ mainHeader := by decide +kernel
    have inTail : '\n' ∉ (Pattern.wholeWord header.parameter).replaceAll (fun _ => standIn)
        header.rest := by
      intro member
      rcases Pattern.mem_of_mem_replaceAll member with inRest | inStandIn
      · exact inLine (by simp [split, inRest])
      · exact unbroken inStandIn
    simp [inIndentation, inHeader, inTail]
  · intro member
    rcases mem_of_mem_withStandIn member with inOld | inStandIn
    · exact whole old (by simp [inBody]) inOld
    · exact unbroken inStandIn
  · exact whole other (by simp [inAfter])

theorem isScoped_entryPoint {text : Text} {front rest : List Line}
    (closed : endsWithNewline text = true) (unbroken : '\n' ∉ standIn)
    (cut : lines text = front ++ line :: rest)
    (first : ∀ other ∈ front, codeHeader? other = none) (found : codeHeader? line = some header)
    (members : ∀ c ∈ header.parameter, isWord c = true)
    (free : occurrences header.parameter none standIn = 0)
    (opens : '{' ∈ line) :
    ∃ body after, rest = body ++ after ∧ IsBody line body after ∧
      IsScoped standIn front header body after (entryPoint standIn text) := by
  obtain ⟨filled, indented, lead, whole⟩ :=
    contextHeader?_eq_some (contextHeader?_of_codeHeader? found)
  obtain ⟨body, after, rfl, isBody, same⟩ := replaceEntryPoint_cons found opens standIn rest
  refine ⟨body, after, rfl, isBody, ?_⟩
  have changed := replaceEntryPoint_append first standIn (line :: (body ++ after))
  rw [same, ← cut] at changed
  have tail := isReplaced_replaceAll filled members free header.rest
  have blank : ∀ c ∈ header.indentation, isBlank c = true := by
    intro c member
    rw [indented] at member
    exact List.mem_takeWhile_imp member
  have written : (entryPoint standIn text).text = unlines (front ++
      (header.indentation ++ mainHeader ++
        (Pattern.wholeWord header.parameter).replaceAll (fun _ => standIn) header.rest) ::
      (body.map (withStandIn header.parameter standIn) ++ after)) true := by
    simp only [entryPoint, changed, closed]
  constructor
  · refine ⟨_, _, written, tail, ?_, fun place => within_mainHeader filled members blank tail.gone⟩
    rw [List.forall₂_map_right_iff, List.forall₂_same]
    exact fun line _ => isBodyLine_withStandIn filled members free line
  · have whole := unbroken_replaced unbroken found (cut ▸ (isCut_lines text).unbroken)
    rw [written, lines_unlines ⟨whole, by simp⟩, length_readBack]
    simp only [List.length_append, List.length_cons, List.length_map]
    omega
  · simp only [entryPoint, changed]
  · simp only [entryPoint, changed, count_wholeWord filled members, sum_uses filled members]

/-- If a class has no entry point, it stays as it is. Otherwise the lines before the first header
and behind the body stay as they are, and so do the comments in the body. On its other lines every
use of the parameter is replaced and counted. -/
theorem entryPoint_isScoped {text standIn : Text} (plain : '\r' ∉ text)
    (closed : endsWithNewline text = true) (unbroken : '\n' ∉ standIn) :
    ((∀ line ∈ lines text, codeHeader? line = none) →
      entryPoint standIn text = { text, parameter := none, replacements := 0 }) ∧
    ∀ front line rest header, lines text = front ++ line :: rest →
      (∀ other ∈ front, codeHeader? other = none) → codeHeader? line = some header →
      (∀ c ∈ header.parameter, isWord c = true) →
      occurrences header.parameter none standIn = 0 → '{' ∈ line →
      ∃ body after, rest = body ++ after ∧ IsBody line body after ∧
        IsScoped standIn front header body after (entryPoint standIn text) := by
  constructor
  · intro nowhere
    exact entryPoint_of_none plain nowhere standIn
  · intro front line rest header cut first found members free opens
    exact isScoped_entryPoint closed unbroken cut first found members free opens

theorem entryPoint_isScoped_args :
    '\r' ∉
        ("args\nvoid attachBaseContext(Context args)\x7b(args)\x7b\n//args\x7d\n$args\x7d\nargs\n" :
          Text) ∧
      endsWithNewline
        "args\nvoid attachBaseContext(Context args)\x7b(args)\x7b\n//args\x7d\n$args\x7d\nargs\n" =
          true ∧
      '\n' ∉ ("new Stub()" : Text) ∧ codeHeader? "args" = none ∧
      codeHeader? "void attachBaseContext(Context args)\x7b(args)\x7b" =
        some ⟨"", "args", "\x7b(args)\x7b"⟩ ∧
      occurrences "args" none "new Stub()" = 0 ∧
      ∃ body after, [("//args\x7d" : Text), "$args\x7d", "args"] = body ++ after ∧
        IsBody "void attachBaseContext(Context args)\x7b(args)\x7b" body after ∧
        IsScoped "new Stub()" ["args"] ⟨"", "args", "\x7b(args)\x7b"⟩ body after
          (entryPoint "new Stub()"
          "args\nvoid attachBaseContext(Context args)\x7b(args)\x7b\n//args\x7d\n$args\x7d\nargs\n") := by
  have plain : '\r' ∉
      ("args\nvoid attachBaseContext(Context args)\x7b(args)\x7b\n//args\x7d\n$args\x7d\nargs\n" :
        Text) := by decide +kernel
  have closed : endsWithNewline
      "args\nvoid attachBaseContext(Context args)\x7b(args)\x7b\n//args\x7d\n$args\x7d\nargs\n" =
        true := by decide +kernel
  have unbroken : '\n' ∉ ("new Stub()" : Text) := by decide +kernel
  have other : codeHeader? "args" = none := rfl
  have found : codeHeader? "void attachBaseContext(Context args)\x7b(args)\x7b" =
      some ⟨"", "args", "\x7b(args)\x7b"⟩ := rfl
  have free : occurrences "args" none "new Stub()" = 0 := by decide +kernel
  refine ⟨plain, closed, unbroken, other, found, free, ?_⟩
  exact (entryPoint_isScoped plain closed unbroken).2 ["args"] _ _ _ (by decide +kernel)
    (by simpa using other) found (List.all_eq_true.mp (by decide +kernel)) free (by decide +kernel)

end Unpacking.Stage
