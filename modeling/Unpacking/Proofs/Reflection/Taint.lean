import Mathlib.Data.List.Forall2
import Unpacking.Proofs.Reflection.Worklist

/-!
Why a name becomes reflective. A sweep finds its names on lines of own code, and these are lines of
the source, in their order, up to carriage returns at their ends. Main statement:
`tainted_traced` leads every name that is found back to the terms through lines of the source.
-/

namespace Unpacking.Reflection

open Text Line
open List (SublistForall₂)
open Relation (ReflTransGen TransGen)

/-! ### Lines that pass a term on -/

/-- A line of code assigns a name from a term. -/
def Assigns (term name : Text) (line : Line) : Prop :=
  isCommentOrImport line = false ∧ ∃ assignment, assignment? line = some assignment ∧
    assignment.name = name ∧ name ≠ term ∧ occurs term assignment.value = true

/-- A line of code declares a method of some name and opens its block. -/
def Declares (name : Text) (line : Line) : Prop :=
  isCommentOrImport line = false ∧ ∃ signature, Signature.parse? line = some signature ∧
    signature.name = name ∧ signature.opensBlock = true

/-- The part of a line behind its first opening brace begins with a return statement and holds a
term. -/
def ReturnsAtOnce (term : Text) (line : Line) : Prop :=
  ∃ front body, cut? '{' line = some (front, body) ∧ begins "return" (trimStart body) = true ∧
    occurs term (trimStart body) = true

/-- A line of code begins with a return statement and holds a term. -/
def Returns (term : Text) (line : Line) : Prop :=
  isCommentOrImport line = false ∧ begins "return" (trimStart line) = true ∧
    occurs term line = true

/-- Some lines make a name reflective when a term is. -/
inductive Taints (lines : List Line) (term name : Text) : Prop
  /-- The name is assigned from the term. -/
  | assigned {line : Line} (member : line ∈ lines) (assigns : Assigns term name line)
  /-- A method of that name returns the term on the line that declares it. -/
  | atOnce {line : Line} (member : line ∈ lines) (declares : Declares name line)
      (returns : ReturnsAtOnce term line)
  /-- The term is returned behind the line that declares a method of that name. -/
  | later {declaration line : Line} (order : [declaration, line].Sublist lines)
      (declares : Declares name declaration) (returns : Returns term line)

theorem Assigns.isOwnCode {term name : Text} {line : Line} (assigns : Assigns term name line) :
    isOwnCode line = true := by
  obtain ⟨isCode, assignment, found, -⟩ := assigns
  exact isOwnCode_of_meaning isCode (.inr (by simp [found]))

theorem Declares.isOwnCode {name : Text} {line : Line} (declares : Declares name line) :
    isOwnCode line = true := by
  obtain ⟨isCode, signature, declared, -⟩ := declares
  exact isOwnCode_of_meaning isCode (.inl (by simp [declared]))

theorem Returns.isOwnCode {term : Text} {line : Line} (returns : Returns term line) :
    isOwnCode line = true := by
  obtain ⟨isCode, begun, -⟩ := returns
  have ownLine : isPlaceholder line = false := by
    rw [Bool.eq_false_iff]
    intro placeholder
    rcases isPlaceholder_cases placeholder with whole | whole
    · rw [whole] at begun
      exact absurd begun (by decide)
    · rw [whole] at begun
      exact absurd begun (by decide)
  simp [Reflection.isOwnCode, isCode, ownLine]

/-! ### Carriage returns -/

theorem Assigns.append_return {term name : Text} {line : Line} (assigns : Assigns term name line) :
    Assigns term name (line ++ ['\r']) := by
  obtain ⟨isCode, assignment, found, named, other, value⟩ := assigns
  exact ⟨isCommentOrImport_append_return line ▸ isCode, _, assignment?_append_return found, named,
    other, occurs_append_return_of_occurs value⟩

theorem Declares.append_return {name : Text} {line : Line} (declares : Declares name line) :
    Declares name (line ++ ['\r']) := by
  rwa [Declares, isCommentOrImport_append_return, Signature.parse?_append_return]

theorem ReturnsAtOnce.append_return {term : Text} {line : Line}
    (returns : ReturnsAtOnce term line) : ReturnsAtOnce term (line ++ ['\r']) := by
  obtain ⟨front, body, opened, begun, found⟩ := returns
  have filled : trimStart body ≠ [] := by
    intro empty
    rw [empty] at begun
    exact absurd begun (by decide)
  refine ⟨front, body ++ ['\r'], ?_, ?_, ?_⟩
  · rw [cut?_append_return (by decide), opened]
    rfl
  · rw [begins_trimStart_append_return (by decide), begun]
  · rw [trimStart_append_return, if_neg filled]
    exact occurs_append_return_of_occurs found

theorem Returns.append_return {term : Text} {line : Line} (returns : Returns term line) :
    Returns term (line ++ ['\r']) := by
  obtain ⟨isCode, begun, found⟩ := returns
  refine ⟨isCommentOrImport_append_return line ▸ isCode, ?_, occurs_append_return_of_occurs found⟩
  rw [begins_trimStart_append_return (by decide), begun]

/-- A line is another one without some carriage returns at its end. -/
def IsShortened : Line → Line → Prop :=
  ReflTransGen fun shorter longer => longer = shorter ++ ['\r']

/-- What a carriage return cannot take from a line holds of the line that was shortened. -/
theorem IsShortened.lift {shorter longer : Line} (shortened : IsShortened shorter longer)
    (property : Line → Prop)
    (grows : ∀ line, property line → property (line ++ ['\r'])) (holds : property shorter) :
    property longer := by
  induction shortened with
  | refl => exact holds
  | tail _ step inductionHypothesis => exact step ▸ grows _ inductionHypothesis

instance : Std.Refl IsShortened := ⟨fun _ => ReflTransGen.refl⟩

instance : IsTrans Line IsShortened := ⟨fun _ _ _ => ReflTransGen.trans⟩

/-! ### Own code that remains -/

/-- The own code among some lines is own code among earlier lines, in their order. -/
def Remains (now before : List Line) : Prop :=
  SublistForall₂ IsShortened (now.filter isOwnCode) (before.filter isOwnCode)

theorem Remains.refl (lines : List Line) : Remains lines lines :=
  Std.Refl.refl (lines.filter isOwnCode)

theorem Remains.trans {now between before : List Line} (later : Remains now between)
    (earlier : Remains between before) : Remains now before :=
  (inferInstance : IsTrans _ (SublistForall₂ IsShortened)).trans _ _ _ later earlier

theorem Remains.exists_sublist {now before kept : List Line} (remains : Remains now before)
    (order : kept.Sublist now) (ownLines : ∀ line ∈ kept, isOwnCode line = true) :
    ∃ longer, List.Forall₂ IsShortened kept longer ∧ longer.Sublist before := by
  have inNow : kept.Sublist (now.filter isOwnCode) := by
    rw [← List.filter_eq_self.mpr ownLines]
    exact order.filter isOwnCode
  have inBefore : SublistForall₂ IsShortened kept (before.filter isOwnCode) :=
    IsTrans.trans _ _ _ inNow.sublistForall₂ remains
  obtain ⟨longer, shortened, inside⟩ := List.sublistForall₂_iff.mp inBefore
  exact ⟨longer, shortened, inside.trans List.filter_sublist⟩

theorem Remains.exists_mem {now before : List Line} {line : Line} (remains : Remains now before)
    (member : line ∈ now) (ownLine : isOwnCode line = true) :
    ∃ longer ∈ before, IsShortened line longer := by
  obtain ⟨kept, related, inside⟩ := remains.exists_sublist (List.singleton_sublist.mpr member)
    (by simpa using ownLine)
  obtain ⟨longer, rest, shortened, nothing, rfl⟩ := List.forall₂_cons_left_iff.mp related
  exact ⟨longer, inside.subset List.mem_cons_self, shortened⟩

theorem Remains.exists_pair {now before : List Line} {first second : Line}
    (remains : Remains now before) (order : [first, second].Sublist now)
    (ownFirst : isOwnCode first = true) (ownSecond : isOwnCode second = true) :
    ∃ longer other, [longer, other].Sublist before ∧ IsShortened first longer ∧
      IsShortened second other := by
  obtain ⟨kept, related, inside⟩ := remains.exists_sublist order
    (by simpa using ⟨ownFirst, ownSecond⟩)
  obtain ⟨longer, rest, shortened, others, rfl⟩ := List.forall₂_cons_left_iff.mp related
  obtain ⟨other, rest, shortenedToo, nothing, rfl⟩ := List.forall₂_cons_left_iff.mp others
  obtain rfl := List.forall₂_nil_left_iff.mp nothing
  exact ⟨longer, other, inside, shortened, shortenedToo⟩

/-- What makes a name reflective on lines that remain does so on the earlier lines. -/
theorem Taints.of_remains {now before : List Line} {term name : Text}
    (taints : Taints now term name) (remains : Remains now before) : Taints before term name := by
  cases taints with
  | assigned member assigns =>
      obtain ⟨longer, inside, shortened⟩ := remains.exists_mem member assigns.isOwnCode
      exact .assigned inside
        (shortened.lift (Assigns term name) (fun _ => Assigns.append_return) assigns)
  | atOnce member declares returns =>
      obtain ⟨longer, inside, shortened⟩ := remains.exists_mem member declares.isOwnCode
      exact .atOnce inside
        (shortened.lift (Declares name) (fun _ => Declares.append_return) declares)
        (shortened.lift (ReturnsAtOnce term) (fun _ => ReturnsAtOnce.append_return) returns)
  | later order declares returns =>
      obtain ⟨longer, other, inside, shortened, shortenedToo⟩ :=
        remains.exists_pair order declares.isOwnCode returns.isOwnCode
      exact .later inside
        (shortened.lift (Declares name) (fun _ => Declares.append_return) declares)
        (shortenedToo.lift (Returns term) (fun _ => Returns.append_return) returns)

theorem forall₂_readBack (closed : Bool) (lines : List Line) :
    List.Forall₂ IsShortened (readBack closed lines) lines := by
  have dropped (line : Line) : IsShortened (dropReturn line) line := by
    rcases dropReturn_cases line with same | longer
    · rw [same]
      exact .refl
    · exact .single longer
  fun_induction readBack closed lines with
  | case1 => exact .nil
  | case2 line =>
      cases closed with
      | false => exact .cons .refl .nil
      | true => exact .cons (dropped line) .nil
  | case3 line next rest inductionHypothesis => exact .cons (dropped line) inductionHypothesis

/-- Reading lines back keeps the order of the own code. -/
theorem remains_of_forall₂ {now before : List Line}
    (shortened : List.Forall₂ IsShortened now before) : Remains now before := by
  unfold Remains
  induction shortened with
  | nil => exact .nil
  | @cons shorter longer now before first _ inductionHypothesis =>
      by_cases ownLine : isOwnCode shorter = true
      · have ownLonger : isOwnCode longer = true :=
          first.lift (fun line => isOwnCode line = true) (fun _ => isOwnCode_append_return) ownLine
        rw [List.filter_cons_of_pos ownLine, List.filter_cons_of_pos ownLonger]
        exact .cons first inductionHypothesis
      · rw [List.filter_cons_of_neg ownLine]
        by_cases ownLonger : isOwnCode longer = true
        · rw [List.filter_cons_of_pos ownLonger]
          exact .cons_right inductionHypothesis
        · rwa [List.filter_cons_of_neg ownLonger]

theorem Span.filter_after (span : Span) :
    (span.after.filter isOwnCode).Sublist (span.before.filter isOwnCode) := by
  by_cases stays : ∃ line, span = .kept line
  · obtain ⟨line, rfl⟩ := stays
    exact List.Sublist.refl _
  · have cleared := Span.countP_after fun line same => stays ⟨line, same⟩
    rw [List.countP_eq_length_filter, List.length_eq_zero_iff] at cleared
    rw [cleared]
    exact List.nil_sublist _

/-- What a pass writes for its spans holds no own code besides that of lines that stay. -/
theorem remains_after (spans : List Span) :
    Remains (spans.flatMap Span.after) (spans.flatMap Span.before) := by
  have inOrder : ((spans.flatMap Span.after).filter isOwnCode).Sublist
      ((spans.flatMap Span.before).filter isOwnCode) := by
    induction spans with
    | nil => exact List.Sublist.refl _
    | cons span rest inductionHypothesis =>
        rw [List.flatMap_cons, List.flatMap_cons, List.filter_append, List.filter_append]
        exact span.filter_after.append inductionHypothesis
  exact inOrder.sublistForall₂

theorem Pass.remains {text result : Text} {spans : List Span} {found : List Finding}
    (pass : Pass text spans result found) : Remains (lines result) (lines text) := by
  rw [pass.written, ← pass.covers]
  exact (remains_of_forall₂ (forall₂_readBack _ _)).trans (remains_after spans)

theorem Swept.remains {source text : Text} {terms : List Text} {findings : List Finding}
    (swept : Swept source terms text findings) : Remains (lines text) (lines source) := by
  induction swept with
  | start => exact Remains.refl _
  | @sweep terms text result term findings inLines _ passed inductionHypothesis =>
      have first := (pass_methodPass term text).remains
      have second := (pass_linePass passed).1.remains
      exact (second.trans first).trans inductionHypothesis

/-! ### Names that a sweep finds -/

theorem returnsTerm_iff {term : Text} {line : Line} :
    returnsTerm term line = true ↔ Returns term line := by
  simp [returnsTerm, Returns, and_assoc]

theorem returnsAtOnce_of_returnsInline {term : Text} {line : Line}
    (returns : returnsInline term line = true) : ReturnsAtOnce term line := by
  rw [returnsInline] at returns
  split at returns
  · rename_i front body opened
    simp only [Bool.and_eq_true] at returns
    exact ⟨front, body, opened, returns⟩
  · simp at returns

/-- A method begins with its declaration, and if it is reflective, it returns the term there or on
a further line. -/
def OpenMethod.IsJustified (term : Text) (method : OpenMethod) : Prop :=
  ∃ head body, method.lines = head :: body ∧ Declares method.name head ∧
    (method.isReflective = true → ReturnsAtOnce term head ∨ ∃ line ∈ body, Returns term line)

theorem isJustified_of_openMethod? {term : Text} {line : Line} {method : OpenMethod}
    (opened : openMethod? term line = some method) : method.IsJustified term := by
  obtain ⟨isCode, signature, declared, opens, rfl⟩ := openMethod?_eq_some opened
  exact ⟨line, [], rfl, ⟨isCode, signature, declared, rfl, opens⟩,
    fun returns => .inl (returnsAtOnce_of_returnsInline returns)⟩

theorem OpenMethod.IsJustified.extend {term : Text} {method : OpenMethod}
    (justified : method.IsJustified term) (line : Line) :
    (method.extend term line).IsJustified term := by
  obtain ⟨head, body, taken, declares, returns⟩ := justified
  refine ⟨head, body ++ [line], by simp [OpenMethod.extend, taken], declares, ?_⟩
  intro reflective
  rw [OpenMethod.extend, Bool.or_eq_true] at reflective
  rcases reflective with already | here
  · apply (returns already).imp_right
    rintro ⟨other, inside, returned⟩
    exact ⟨other, List.mem_append_left _ inside, returned⟩
  · exact .inr ⟨line, by simp, returnsTerm_iff.mp here⟩

/-- A method that the first pass removes makes its name reflective. -/
theorem taints_of_mem_methodPass {term text name : Text}
    (member : name ∈ (methodPass term text).2.filterMap Finding.tainted?) :
    Taints (lines text) term name := by
  have pass := pass_methodPass term text
  rw [pass.reported, List.filterMap_flatMap] at member
  obtain ⟨span, inside, found⟩ := List.mem_flatMap.mp member
  have made := @ofMethods_of_mem_spansFrom term none (lines text) span (OpenMethod.IsJustified term)
    (fun _ _ _ => isJustified_of_openMethod?)
    (fun line _ _ justified _ => justified.extend line) (by simp) inside
  cases span with
  | kept line => simp [Span.findings] at found
  | commented line assigned => exact made.elim
  | removed method =>
      have same : name = method.name := by
        simpa [Span.findings, Finding.tainted?] using found
      obtain ⟨⟨head, body, taken, declares, returns⟩, -, reflective⟩ := made
      have order : (head :: body).Sublist (lines text) := by
        rw [← pass.covers, ← taken]
        exact List.sublist_flatten_of_mem (List.mem_map_of_mem inside)
      rw [same]
      rcases returns reflective with atOnce | ⟨line, inBody, returned⟩
      · exact .atOnce (order.subset List.mem_cons_self) declares atOnce
      · have pair : [head, line].Sublist (head :: body) :=
          (List.singleton_sublist.mpr inBody).cons_cons head
        exact .later (pair.trans order) declares returned

/-- A line that the second pass comments out makes the variable that it assigns reflective. -/
theorem taints_of_mem_linePass {term text result name : Text} {found : List Finding}
    (passed : linePass term text = .ok (result, found))
    (member : name ∈ found.filterMap Finding.tainted?) : Taints (lines text) term name := by
  obtain ⟨pass, made⟩ := pass_linePass passed
  rw [pass.reported, List.filterMap_flatMap] at member
  obtain ⟨span, inside, inSpan⟩ := List.mem_flatMap.mp member
  have ofLines := made span inside
  cases span with
  | kept line => simp [Span.findings] at inSpan
  | removed method => exact ofLines.elim
  | commented line assigned =>
      cases assigned with
      | none => simp [Span.findings, Finding.tainted?] at inSpan
      | some target =>
          have same : name = target := by
            simpa [Span.findings, Finding.tainted?] using inSpan
          obtain ⟨assignment, assigns, named, -, other, value⟩ :=
            taintedVariable?_eq_some ofLines.2
          rw [same]
          exact .assigned (pass.mem_lines inside (by simp [Span.before]))
            ⟨isCommentOrImport_of_staysLive ofLines.1, assignment, assigns, named, other, value⟩

/-- Every name that a sweep finds is made reflective by lines of the source. -/
theorem Swept.taints {source text result term name : Text} {terms : List Text}
    {findings inLines : List Finding} (swept : Swept source terms text findings)
    (passed : linePass term (methodPass term text).1 = .ok (result, inLines))
    (member : name ∈ ((methodPass term text).2 ++ inLines).filterMap Finding.tainted?) :
    Taints (lines source) term name := by
  rw [List.filterMap_append, List.mem_append] at member
  rcases member with inMethods | inLines
  · exact (taints_of_mem_methodPass inMethods).of_remains swept.remains
  · have between := (pass_methodPass term text).remains.trans swept.remains
    exact (taints_of_mem_linePass passed inLines).of_remains between

/-! ### Names that lead back to the terms -/

/-- Each of some names is made reflective by a term or by a name before it. -/
inductive Traced (lines : List Line) (terms : List Text) : List Text → Prop
  | nil : Traced lines terms []
  | concat {names : List Text} {term name : Text} (earlier : Traced lines terms names)
      (known : term ∈ terms ∨ term ∈ names) (taints : Taints lines term name) :
      Traced lines terms (names ++ [name])

namespace Traced

variable {lines : List Line} {terms names : List Text}

theorem append {term : Text} {found : List Text} (earlier : Traced lines terms names)
    (known : term ∈ terms ∨ term ∈ names) (taints : ∀ name ∈ found, Taints lines term name) :
    Traced lines terms (names ++ found) := by
  induction found generalizing names with
  | nil => rwa [List.append_nil]
  | cons name found inductionHypothesis =>
      have first := earlier.concat known (taints name List.mem_cons_self)
      have others := inductionHypothesis first (known.imp_right (List.mem_append_left [name]))
        fun other inside => taints other (List.mem_cons_of_mem name inside)
      rwa [List.append_assoc] at others

/-- A name that is found again adds nothing. -/
theorem eraseDups (traced : Traced lines terms names) : Traced lines terms names.eraseDups := by
  induction traced with
  | nil => exact .nil
  | @concat names term name earlier known taints inductionHypothesis =>
      rw [List.eraseDups_append]
      by_cases again : name ∈ names
      · simpa [List.removeAll, again] using inductionHypothesis
      · have known : term ∈ terms ∨ term ∈ names.eraseDups := by simpa using known
        simpa [List.removeAll, again, List.eraseDups_cons] using
          inductionHypothesis.concat known taints

theorem exists_term (traced : Traced lines terms names) {index : Nat} {name : Text}
    (here : names[index]? = some name) :
    ∃ term, (term ∈ terms ∨ ∃ before < index, names[before]? = some term) ∧
      Taints lines term name := by
  induction traced with
  | nil => simp at here
  | @concat names term last earlier known taints inductionHypothesis =>
      have kept {before : Nat} {other : Text} (found : names[before]? = some other) :
          before < names.length ∧ (names ++ [last])[before]? = some other := by
        have inside : before < names.length := (List.getElem?_eq_some_iff.mp found).1
        exact ⟨inside, by rw [List.getElem?_append_left inside, found]⟩
      by_cases inside : index < names.length
      · rw [List.getElem?_append_left inside] at here
        obtain ⟨cause, known, taints⟩ := inductionHypothesis here
        refine ⟨cause, known.imp_right ?_, taints⟩
        rintro ⟨before, below, found⟩
        exact ⟨before, below, (kept found).2⟩
      · rw [List.getElem?_append_right (Nat.le_of_not_lt inside)] at here
        obtain rfl := List.mem_singleton.mp (List.mem_of_getElem? here)
        refine ⟨term, known.imp_right ?_, taints⟩
        intro found
        obtain ⟨before, found⟩ := List.mem_iff_getElem?.mp found
        obtain ⟨below, found⟩ := kept found
        exact ⟨before, by omega, found⟩

/-- Every name is reached from a term in finitely many steps. -/
theorem exists_chain (traced : Traced lines terms names) {name : Text} (member : name ∈ names) :
    ∃ term ∈ terms, TransGen (Taints lines) term name := by
  induction traced generalizing name with
  | nil => simp at member
  | @concat names term last earlier known taints inductionHypothesis =>
      rcases List.mem_append.mp member with before | here
      · exact inductionHypothesis before
      · rw [List.mem_singleton.mp here]
        rcases known with listed | found
        · exact ⟨term, listed, .single taints⟩
        · obtain ⟨first, listed, chain⟩ := inductionHypothesis found
          exact ⟨first, listed, chain.tail taints⟩

end Traced

/-! ### Runs -/

namespace Removal

variable {source : Text} {terms : List Text} {removal : Removal}

theorem sweep_eq_ok {term : Text} {result : Removal} (swept : removal.sweep term = .ok result) :
    ∃ inLines, linePass term (methodPass term removal.text).1 = .ok (result.text, inLines) ∧
      result.findings = removal.findings ++ ((methodPass term removal.text).2 ++ inLines) := by
  unfold sweep at swept
  simp only at swept
  split at swept
  · simp at swept
  · rename_i text inLines passed
    obtain rfl := Except.ok.inj swept
    exact ⟨inLines, passed, rfl⟩

/-- The names that a removal has found lead back to the terms. -/
def IsTraced (source : Text) (terms : List Text) (removal : Removal) : Prop :=
  Traced (lines source) terms (removal.findings.filterMap Finding.tainted?)

theorem IsTraced.sweep {done : List Text} {term : Text} {result : Removal}
    (traced : removal.IsTraced source terms)
    (swept : Swept source done removal.text removal.findings)
    (known : term ∈ terms ∨ term ∈ removal.tainted) (ok : removal.sweep term = .ok result) :
    result.IsTraced source terms := by
  obtain ⟨inLines, passed, findings⟩ := sweep_eq_ok ok
  rw [IsTraced, findings, List.filterMap_append]
  exact Traced.append traced (known.imp_right mem_tainted.mp) fun name => swept.taints passed

theorem IsTraced.sweepAll {done rest : List Text} {start : Removal}
    (traced : removal.IsTraced source terms)
    (swept : Swept source done removal.text removal.findings) (listed : rest ⊆ terms)
    (ok : removal.sweepAll rest = .ok start) : start.IsTraced source terms := by
  induction rest generalizing done removal with
  | nil =>
      obtain rfl := Except.ok.inj ok
      exact traced
  | cons term rest inductionHypothesis =>
      rw [Removal.sweepAll_cons] at ok
      split at ok
      · simp at ok
      · rename_i next first
        obtain ⟨names, step⟩ := isSweep_of_sweep first
        obtain ⟨isListed, others⟩ := List.cons_subset.mp listed
        exact inductionHypothesis (traced.sweep swept (.inl isListed) first)
          (step.swept source done swept) others ok

end Removal

theorem Turn.isTraced {source : Text} {terms : List Text} {earlier later : Removal}
    (turn : Turn earlier later) (follows : earlier.Follows source terms)
    (traced : earlier.IsTraced source terms) : later.IsTraced source terms := by
  cases turn with
  | skip next known => exact traced
  | @sweep swept name pending next fresh ok =>
      have known : name ∈ earlier.tainted := (follows.scheduled name).mpr (.inl (by simp [next]))
      have waiting : ({ earlier with pending } : Removal).IsTraced source terms := traced
      have result : swept.IsTraced source terms := waiting.sweep follows.swept (.inr known) ok
      exact result

theorem isTraced_of_remove {source : Text} {terms : List Text} {removal : Removal}
    (removed : remove terms source = .ok removal) : removal.IsTraced source terms := by
  obtain ⟨start, swept, turns, -⟩ := turns_of_remove removed
  have unswept : ({ text := source } : Removal).IsTraced source terms := Traced.nil
  have begun := unswept.sweepAll .start (List.Subset.refl terms) swept
  have follows := Removal.follows_start swept
  clear removed swept
  induction turns with
  | refl => exact begun
  | tail turns turn inductionHypothesis =>
      exact turn.isTraced (follows_of_turns turns follows) inductionHypothesis

/-- Every name that is found is made reflective, on lines of the source, by a term or by a name
that was found before it. So a finite chain of such steps leads from the terms to each name. -/
theorem tainted_traced {terms : List Text} {source : Text} {removal : Removal}
    (removed : remove terms source = .ok removal) :
    (∀ (index : Nat) (name : Text), removal.tainted[index]? = some name →
      ∃ term, (term ∈ terms ∨ ∃ before < index, removal.tainted[before]? = some term) ∧
        Taints (lines source) term name) ∧
    ∀ name ∈ removal.tainted, ∃ term ∈ terms, TransGen (Taints (lines source)) term name := by
  have traced : Traced (lines source) terms removal.tainted :=
    (isTraced_of_remove removed).eraseDups
  exact ⟨fun index name => traced.exists_term, fun name => traced.exists_chain⟩

/-- A variable is assigned from a method that returns a variable that is assigned from a term. -/
def chained : Text :=
  "b=f();\nT f() \x7b\n\treturn c;\r\r\n\x7d\nc=a;\r"

/-- The names of the chain are tainted in the opposite order of their lines. -/
theorem tainted_traced_chain :
    ∃ removal, remove ["a"] chained = .ok removal ∧
      removal.tainted = [("c" : Text), "f", "b"] ∧
      ∃ term ∈ [("a" : Text)], TransGen (Taints (lines chained)) term "b" := by
  have run : (remove ["a"] chained).map Removal.tainted = .ok ["c", "f", "b"] := by
    decide +kernel
  obtain ⟨removal, removed, seen⟩ := exists_remove_of_map run
  have chain := (tainted_traced removed).2 "b" (by simp [seen])
  exact ⟨removal, removed, seen, chain⟩

end Unpacking.Reflection
