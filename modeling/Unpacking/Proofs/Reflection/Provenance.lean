import Mathlib.Data.Fin.Tuple.Basic
import Mathlib.Order.Fin.Basic
import Unpacking.Proofs.Reflection.Worklist

/-!
Where the lines of a result come from. A pass takes a line along in a removed method, comments it
out on its own, or leaves it; besides that it only adds markers and placeholders. So each line of a
result has a trace, and the traces of the source lines stand in the order of the source.
-/

namespace Unpacking.Reflection

open Text Line

/-! ### Traces -/

/-- A line behind the lead of a removed method. -/
def leadBefore (line : Line) : Line :=
  methodLead ++ line

/-- A line commented out on its own. -/
def commentOut (line : Line) : Line :=
  "// " ++ line ++ " " ++ lineMarker

/-- How a line came into a text: what it was at first, whether it was commented out on its own, and
how many removed methods took it along after that. -/
inductive Trace where
  | source (line : Line) (isCommented : Bool) (times : Nat)
  | placeholder (line : Line) (shape : isPlaceholder line = true) (isCommented : Bool) (times : Nat)
  /-- The line behind a removed method is a comment from the start. -/
  | marker (times : Nat)

namespace Trace

/-- The line that a trace ends with. -/
def written : Trace → Line
  | source line isCommented times =>
    leadBefore^[times] (if isCommented then commentOut line else line)
  | placeholder line _ isCommented times =>
    leadBefore^[times] (if isCommented then commentOut line else line)
  | marker times => leadBefore^[times] methodMarker

/-- The source line that a trace begins with. -/
def source? : Trace → Option Line
  | source line _ _ => some line
  | placeholder _ _ _ _ => none
  | marker _ => none

/-- Whether a removed method has left the line behind it. -/
def isMarker : Trace → Bool
  | source _ _ _ => false
  | placeholder _ _ _ _ => false
  | marker _ => true

/-- Whether the line was commented out on its own. -/
def isCommented : Trace → Bool
  | source _ isCommented _ => isCommented
  | placeholder _ _ isCommented _ => isCommented
  | marker _ => false

/-- The trace of a line that one more removed method takes along. -/
def takenAlong : Trace → Trace
  | source line isCommented times => source line isCommented (times + 1)
  | placeholder line shape isCommented times => placeholder line shape isCommented (times + 1)
  | marker times => marker (times + 1)

@[simp] theorem written_takenAlong (trace : Trace) :
    trace.takenAlong.written = methodLead ++ trace.written := by
  cases trace <;> exact Function.iterate_succ_apply' leadBefore _ _

@[simp] theorem source?_takenAlong (trace : Trace) : trace.takenAlong.source? = trace.source? := by
  cases trace <;> rfl

@[simp] theorem isMarker_takenAlong (trace : Trace) :
    trace.takenAlong.isMarker = trace.isMarker := by
  cases trace <;> rfl

@[simp] theorem isCommented_takenAlong (trace : Trace) :
    trace.takenAlong.isCommented = trace.isCommented := by
  cases trace <;> rfl

theorem isLineComment_commentOut (line : Line) : isLineComment (commentOut line) = true :=
  isLineComment_slashes _

theorem isLineComment_iterate_leadBefore (line : Line) (times : Nat) :
    isLineComment (leadBefore^[times + 1] line) = true := by
  rw [Function.iterate_succ_apply']
  exact isLineComment_methodLead _

/-- A trace to a line of code is a source line or a placeholder that nothing has happened to. -/
theorem untouched_of_isCode {trace : Trace} (isCode : isLineComment trace.written = false) :
    trace = .source trace.written false 0 ∨
      ∃ shape, trace = .placeholder trace.written shape false 0 := by
  have early {line : Line} {times : Nat}
      (isCode : isLineComment (leadBefore^[times] line) = false) : times = 0 := by
    cases times with
    | zero => rfl
    | succ times =>
        rw [isLineComment_iterate_leadBefore] at isCode
        exact absurd isCode (by decide)
  have plain {line : Line} {isCommented : Bool}
      (isCode : isLineComment (if isCommented then commentOut line else line) = false) :
      isCommented = false := by
    cases isCommented with
    | false => rfl
    | true =>
        rw [if_pos rfl, isLineComment_commentOut] at isCode
        exact absurd isCode (by decide)
  cases trace with
  | source line isCommented times =>
      obtain rfl := early isCode
      obtain rfl := plain isCode
      exact .inl rfl
  | placeholder line shape isCommented times =>
      obtain rfl := early isCode
      obtain rfl := plain isCode
      exact .inr ⟨shape, rfl⟩
  | marker times =>
      obtain rfl := early isCode
      change isLineComment methodMarker = false at isCode
      rw [isLineComment_methodMarker] at isCode
      exact absurd isCode (by decide)

end Trace

/-! ### Traces through a pass -/

/-- Later traces continue earlier ones: the source lines are the same, and there is a marker more
for each removed method that was found, and a comment more for each line. -/
structure Continues (found : List Finding) (before after : List Trace) : Prop where
  sources : after.filterMap Trace.source? = before.filterMap Trace.source?
  markers : after.countP Trace.isMarker =
    before.countP Trace.isMarker + (found.filterMap Finding.removedMethod?).length
  comments : after.countP Trace.isCommented =
    before.countP Trace.isCommented + found.countP Finding.isLine

namespace Continues

theorem refl (traces : List Trace) : Continues [] traces traces :=
  ⟨rfl, rfl, rfl⟩

theorem append {found more : List Finding} {before after restBefore restAfter : List Trace}
    (first : Continues found before after) (rest : Continues more restBefore restAfter) :
    Continues (found ++ more) (before ++ restBefore) (after ++ restAfter) where
  sources := by rw [List.filterMap_append, List.filterMap_append, first.sources, rest.sources]
  markers := by
    have here := first.markers
    have there := rest.markers
    simp only [List.countP_append, List.filterMap_append, List.length_append]
    omega
  comments := by
    have here := first.comments
    have there := rest.comments
    simp only [List.countP_append]
    omega

theorem trans {found more : List Finding} {before between after : List Trace}
    (first : Continues found before between) (second : Continues more between after) :
    Continues (found ++ more) before after where
  sources := second.sources.trans first.sources
  markers := by
    have here := first.markers
    have there := second.markers
    simp only [List.filterMap_append, List.length_append]
    omega
  comments := by
    have here := first.comments
    have there := second.comments
    simp only [List.countP_append]
    omega

end Continues

/-- The traces of the placeholders for the unmatched braces of a line. -/
def placeholderTraces (line : Line) : List Trace :=
  List.replicate (unmatchedBraces line).1 (.placeholder _ (isPlaceholder_close line) false 0) ++
    List.replicate (unmatchedBraces line).2 (.placeholder _ (isPlaceholder_open line) false 0)

theorem map_written_placeholderTraces (line : Line) :
    commentOut line :: (placeholderTraces line).map Trace.written = commentedLine line := by
  rw [placeholderTraces, List.map_append, List.map_replicate, List.map_replicate]
  rfl

/-- Placeholders count neither as source lines nor in the report. -/
theorem continues_placeholderTraces (line : Line) : Continues [] [] (placeholderTraces line) where
  sources := by simp [placeholderTraces, Trace.source?]
  markers := by simp [placeholderTraces, Trace.isMarker]
  comments := by simp [placeholderTraces, Trace.isCommented]

theorem continues_removed (method : OpenMethod) (before : List Trace) :
    Continues (Span.removed method).findings before
      (before.map Trace.takenAlong ++ [.marker 0]) where
  sources := by
    have same : Trace.source? ∘ Trace.takenAlong = Trace.source? :=
      funext Trace.source?_takenAlong
    rw [List.filterMap_append, List.filterMap_map, same]
    exact List.append_nil _
  markers := by
    have same : Trace.isMarker ∘ Trace.takenAlong = Trace.isMarker :=
      funext Trace.isMarker_takenAlong
    rw [List.countP_append, List.countP_map, same]
    rfl
  comments := by
    have same : Trace.isCommented ∘ Trace.takenAlong = Trace.isCommented :=
      funext Trace.isCommented_takenAlong
    rw [List.countP_append, List.countP_map, same]
    rfl

/-- A line that is commented out is a source line or a placeholder in the clear. -/
theorem continues_commented {term : Text} {line : Line} {assigned : Option Text}
    (made : (Span.commented line assigned).IsMade term) {trace : Trace}
    (written : trace.written = line) :
    ∃ commented : Trace, commented.written = commentOut line ∧
      Continues (Span.commented line assigned).findings [trace] [commented] := by
  have isCode : isLineComment trace.written = false := by
    rw [written]
    exact isLineComment_of_isCommentOrImport
      (isCommentOrImport_of_staysLive (made.resolve_left id).1)
  have untouched := Trace.untouched_of_isCode isCode
  rw [written] at untouched
  rcases untouched with rfl | ⟨shape, rfl⟩
  · refine ⟨.source line true 0, rfl, ?_⟩
    cases assigned <;> exact ⟨rfl, rfl, rfl⟩
  · refine ⟨.placeholder line shape true 0, rfl, ?_⟩
    cases assigned <;> exact ⟨rfl, rfl, rfl⟩

/-- What a span does to the traces of its lines. -/
theorem Span.exists_continues {term : Text} {span : Span} (made : span.IsMade term)
    {traces : List Trace} (written : traces.map Trace.written = span.before) :
    ∃ later : List Trace, later.map Trace.written = span.after ∧
      Continues span.findings traces later := by
  cases span with
  | kept line => exact ⟨traces, written, .refl traces⟩
  | removed method =>
      refine ⟨traces.map Trace.takenAlong ++ [.marker 0], ?_, continues_removed method traces⟩
      have taken : traces.map (Trace.written ∘ Trace.takenAlong) =
          (traces.map Trace.written).map (methodLead ++ ·) := by
        rw [List.map_map]
        exact List.map_congr_left fun trace _ => trace.written_takenAlong
      rw [List.map_append, List.map_map, taken, written]
      rfl
  | commented line assigned =>
      obtain ⟨trace, rfl, same⟩ := List.map_eq_singleton_iff.mp written
      obtain ⟨commented, out, continues⟩ := continues_commented made same
      refine ⟨[commented] ++ placeholderTraces line, ?_, ?_⟩
      · rw [List.map_append, List.map_singleton, out]
        exact map_written_placeholderTraces line
      · have whole := continues.append (continues_placeholderTraces line)
        rwa [List.append_nil, List.append_nil] at whole

theorem exists_continues_of_spans {term : Text} {spans : List Span}
    (made : ∀ span ∈ spans, span.IsMade term) {traces : List Trace}
    (written : traces.map Trace.written = spans.flatMap Span.before) :
    ∃ later : List Trace, later.map Trace.written = spans.flatMap Span.after ∧
      Continues (spans.flatMap Span.findings) traces later := by
  induction spans generalizing traces with
  | nil =>
      obtain rfl := List.map_eq_nil_iff.mp written
      exact ⟨[], rfl, .refl []⟩
  | cons span spans inductionHypothesis =>
      rw [List.flatMap_cons] at written
      obtain ⟨here, rest, rfl, inSpan, behind⟩ := List.map_eq_append_iff.mp written
      obtain ⟨first, firstWritten, firstContinues⟩ :=
        Span.exists_continues (made span (by simp)) inSpan
      obtain ⟨others, othersWritten, othersContinue⟩ :=
        inductionHypothesis (fun other member => made other (by simp [member])) behind
      refine ⟨first ++ others, ?_, firstContinues.append othersContinue⟩
      rw [List.map_append, firstWritten, othersWritten, List.flatMap_cons]

theorem Pass.exists_continues {term text result : Text} {spans : List Span} {found : List Finding}
    (pass : Pass text spans result found) (plain : '\r' ∉ text)
    (made : ∀ span ∈ spans, span.IsMade term) {traces : List Trace}
    (written : traces.map Trace.written = lines text) :
    ∃ later : List Trace, later.map Trace.written = lines result ∧
      Continues found traces later := by
  rw [← pass.covers] at written
  rw [pass.lines_eq plain, pass.reported]
  exact exists_continues_of_spans made written

/-- The traces of the lines of a source before any pass. -/
def sourceTraces (source : Text) : List Trace :=
  (lines source).map (.source · false 0)

/-- Every text on the way of a run has traces that continue those of the source. -/
theorem Swept.exists_continues {source text : Text} {terms : List Text} {findings : List Finding}
    (swept : Swept source terms text findings) (plain : '\r' ∉ source) :
    ∃ traces : List Trace, traces.map Trace.written = lines text ∧
      Continues findings (sourceTraces source) traces := by
  induction swept with
  | start =>
      refine ⟨sourceTraces source, ?_, .refl _⟩
      simp [sourceTraces, Trace.written, Function.comp_def]
  | @sweep terms text result term findings inLines earlier passed inductionHypothesis =>
      obtain ⟨traces, written, continues⟩ := inductionHypothesis
      have plainText := earlier.return_not_mem plain
      have plainBetween := (return_not_mem_of_sweep plainText passed).1
      obtain ⟨between, betweenWritten, first⟩ :=
        (pass_methodPass term text).exists_continues plainText isMade_of_mem_methodSpans written
      obtain ⟨pass, made⟩ := pass_linePass passed
      obtain ⟨later, laterWritten, second⟩ := pass.exists_continues plainBetween
        (fun span member => .inr (made span member)) betweenWritten
      exact ⟨later, laterWritten, continues.trans (first.trans second)⟩

/-! ### The places of the source lines -/

/-- What a view sees in a list, it sees at rising places, and nothing at all others. -/
theorem exists_strictMono_of_filterMap {α β : Type} {view : α → Option β} {items : List α}
    {seen : List β} (sees : items.filterMap view = seen) :
    ∃ place : Fin seen.length → Fin items.length, StrictMono place ∧
      (∀ index, view (items.get (place index)) = some (seen.get index)) ∧
      ∀ other, other ∉ Set.range place → view (items.get other) = none := by
  induction items generalizing seen with
  | nil =>
      subst sees
      exact ⟨id, strictMono_id, fun index => index.elim0, fun other => other.elim0⟩
  | cons item rest inductionHypothesis =>
      cases here : view item with
      | none =>
          rw [List.filterMap_cons_none here] at sees
          obtain ⟨place, rising, found, blind⟩ := inductionHypothesis sees
          refine ⟨fun index => (place index).succ, ?_, found, ?_⟩
          · exact fun low high less => Fin.succ_lt_succ_iff.mpr (rising less)
          · intro other outside
            cases other using Fin.cases with
            | zero => exact here
            | succ other =>
                refine blind other fun ⟨index, same⟩ => outside ⟨index, ?_⟩
                exact congrArg Fin.succ same
      | some value =>
          rw [List.filterMap_cons_some here] at sees
          subst sees
          obtain ⟨place, rising, found, blind⟩ := inductionHypothesis rfl
          refine ⟨Fin.cons 0 fun index => (place index).succ, ?_, ?_, ?_⟩
          · intro low high less
            cases high using Fin.cases with
            | zero => exact absurd less (Fin.not_lt_zero low)
            | succ high =>
                cases low using Fin.cases with
                | zero => exact Fin.succ_pos _
                | succ low => exact Fin.succ_lt_succ_iff.mpr (rising (Fin.succ_lt_succ_iff.mp less))
          · intro index
            cases index using Fin.cases with
            | zero => exact here
            | succ index => exact found index
          · intro other outside
            cases other using Fin.cases with
            | zero => exact absurd ⟨0, rfl⟩ outside
            | succ other =>
                refine blind other fun ⟨index, same⟩ => outside ⟨index.succ, ?_⟩
                exact congrArg Fin.succ same

/-- A removal loses no line, changes their order nowhere, and alters a line only by commenting it
out. Every line of the result has a trace. The traces of the source lines stand at rising places,
in the order of the source, and all other traces begin with a marker or a placeholder. There are as
many markers as removed methods, and as many lines commented out on their own as were counted. -/
theorem exists_traces_of_remove {terms : List Text} {source : Text} {removal : Removal}
    (plain : '\r' ∉ source) (removed : remove terms source = .ok removal) :
    ∃ traces : List Trace, lines removal.text = traces.map Trace.written ∧
      (∃ place : Fin (lines source).length → Fin traces.length, StrictMono place ∧
        (∀ index, (traces.get (place index)).source? = some ((lines source).get index)) ∧
        ∀ other, other ∉ Set.range place → (traces.get other).source? = none) ∧
      traces.countP Trace.isMarker = removal.removedMethods.length ∧
      traces.countP Trace.isCommented = removal.commentedLines := by
  obtain ⟨traces, written, continues⟩ :=
    (follows_of_remove removed).swept.exists_continues plain
  have sources : traces.filterMap Trace.source? = lines source := by
    rw [continues.sources, sourceTraces, List.filterMap_map]
    exact List.filterMap_some
  have noMarker : (sourceTraces source).countP Trace.isMarker = 0 := by
    simp [sourceTraces, List.countP_map, Function.comp_def, Trace.isMarker]
  have noComment : (sourceTraces source).countP Trace.isCommented = 0 := by
    simp [sourceTraces, List.countP_map, Function.comp_def, Trace.isCommented]
  refine ⟨traces, written.symm, exists_strictMono_of_filterMap sources, ?_, ?_⟩
  · rw [continues.markers, noMarker, Nat.zero_add]
    rfl
  · rw [continues.comments, noComment, Nat.zero_add]
    rfl

/-- A line is commented out on its own, and then taken along with its method. -/
theorem exists_traces_of_remove_nested :
    ∃ removal, ∃ traces : List Trace, remove ["invoke", "getField"]
        "X m() \x7b\nx=invoke();\nreturn getField();\n\x7d" = .ok removal ∧
      lines removal.text = traces.map Trace.written ∧ traces.length = 5 ∧
      traces.countP Trace.isMarker = 1 ∧ traces.countP Trace.isCommented = 1 := by
  have run : (remove ["invoke", "getField"] "X m() \x7b\nx=invoke();\nreturn getField();\n\x7d").map
      (fun removal => (removal.removedMethods.length, removal.commentedLines,
        (lines removal.text).length)) = .ok (1, 1, 5) := by decide +kernel
  obtain ⟨removal, removed, counts⟩ := exists_remove_of_map run
  simp only [Prod.mk.injEq] at counts
  obtain ⟨traces, written, -, markers, comments⟩ :=
    exists_traces_of_remove (by decide +kernel) removed
  rw [counts.1] at markers
  rw [counts.2.1] at comments
  have size : traces.length = 5 := by
    rw [← counts.2.2, written, List.length_map]
  exact ⟨removal, traces, removed, written, size, markers, comments⟩

end Unpacking.Reflection
