import Mathlib.Data.List.ReduceOption
import Unpacking.Proofs.Reflection.Blocks
import Unpacking.Proofs.Reflection.Worklist

/-!
The block structure of a source under a removal. The lines that no removed method covers keep
their braces, themselves or through placeholders, and their balance decides the balance of the
result. A removed method is the wrong block when it holds braces that an earlier sweep commented
out, since the first pass counts those as well.
-/

namespace Unpacking.Reflection

open Text Line

/-! ### The blocks that are removed -/

/-- The blocks that the sweeps for some terms comment out as methods, each with its lines as they
are by then. -/
def removedBlocks : List Text → Text → List (List Line)
  | [], _ => []
  | term :: terms, text =>
    (methodSpans term text).flatMap Span.blocks ++
      match linePass term (methodPass term text).1 with
      | .ok (result, _) => removedBlocks terms result
      | .error _ => []

theorem Swept.removedBlocks_append {source text : Text} {terms : List Text}
    {findings : List Finding} (swept : Swept source terms text findings) (more : List Text) :
    removedBlocks (terms ++ more) source = removedBlocks terms source ++ removedBlocks more text := by
  induction swept generalizing more with
  | start => rfl
  | @sweep terms text result term findings inLines earlier passed inductionHypothesis =>
      have next (rest : List Text) : removedBlocks (term :: rest) text =
          (methodSpans term text).flatMap Span.blocks ++ removedBlocks rest result := by
        rw [removedBlocks, passed]
      have last : removedBlocks [] result = [] := by rw [removedBlocks]
      rw [List.append_assoc, List.singleton_append, inductionHypothesis, inductionHypothesis, next,
        next, last, List.append_nil, List.append_assoc]

/-- Both passes of a sweep cut whole spans, and leave one brace at most on a line. -/
theorem isWhole_of_sweep {term text result : Text} {inLines : List Finding}
    (single : ∀ line ∈ lines text, braceCount line ≤ 1)
    (passed : linePass term (methodPass term text).1 = .ok (result, inLines)) :
    (∀ span ∈ methodSpans term text, span.IsWhole) ∧
      (∀ span ∈ lineSpans term (methodPass term text).1, span.IsWhole) ∧
      ∀ line ∈ lines result, braceCount line ≤ 1 := by
  obtain ⟨second, made⟩ := pass_linePass passed
  have between := (pass_methodPass term text).braceCount_le single
  refine ⟨fun span member => isWhole_of_mem_methodSpans single member, fun span member => ?_,
    second.braceCount_le between⟩
  refine isWhole_of_ofLines (made span member) fun line covered => ?_
  exact between line (second.mem_lines member covered)

theorem Swept.braceCount_le {source text : Text} {terms : List Text} {findings : List Finding}
    (swept : Swept source terms text findings)
    (single : ∀ line ∈ lines source, braceCount line ≤ 1) :
    ∀ line ∈ lines text, braceCount line ≤ 1 := by
  induction swept with
  | start => exact single
  | sweep _ passed inductionHypothesis => exact (isWhole_of_sweep inductionHypothesis passed).2.2

/-- One sweep: the live depth is off by the surplus of the blocks that it comments out, and if
none of them has any, the depth is never negative where it was not before. -/
theorem liveSteps_of_sweep {term text result : Text} {inLines : List Finding}
    (single : ∀ line ∈ lines text, braceCount line ≤ 1)
    (passed : linePass term (methodPass term text).1 = .ok (result, inLines)) :
    (liveSteps result).sum = (liveSteps text).sum +
        (((methodSpans term text).flatMap Span.blocks).map surplus).sum ∧
      ((∀ block ∈ (methodSpans term text).flatMap Span.blocks, surplus block = 0) →
        NeverNegative 0 (liveSteps text) → NeverNegative 0 (liveSteps result)) := by
  have first := pass_methodPass term text
  obtain ⟨second, made⟩ := pass_linePass passed
  obtain ⟨wholeFirst, wholeSecond, -⟩ := isWhole_of_sweep single passed
  have noBlocks : (lineSpans term (methodPass term text).1).flatMap Span.blocks = [] :=
    List.flatMap_eq_nil_iff.mpr fun span member => blocks_of_ofLines (made span member)
  constructor
  · rw [second.sum_liveSteps wholeSecond, noBlocks, first.sum_liveSteps wholeFirst]
    simp
  · intro even never
    refine second.neverNegative wholeSecond ?_ (first.neverNegative wholeFirst even never)
    simp [noBlocks]

/-- A run of sweeps does to the live depth what its sweeps do, one after the other. -/
theorem Swept.liveSteps_of_source {source text : Text} {terms : List Text}
    {findings : List Finding} (swept : Swept source terms text findings)
    (single : ∀ line ∈ lines source, braceCount line ≤ 1) :
    (liveSteps text).sum =
        (liveSteps source).sum + ((removedBlocks terms source).map surplus).sum ∧
      ((∀ block ∈ removedBlocks terms source, surplus block = 0) →
        NeverNegative 0 (liveSteps source) → NeverNegative 0 (liveSteps text)) := by
  induction swept with
  | start => exact ⟨by simp [removedBlocks], fun _ never => never⟩
  | @sweep terms text result term findings inLines earlier passed inductionHypothesis =>
      obtain ⟨sum, kept⟩ := inductionHypothesis
      obtain ⟨sumResult, keptResult⟩ := liveSteps_of_sweep (earlier.braceCount_le single) passed
      have blocks : removedBlocks (terms ++ [term]) source =
          removedBlocks terms source ++ (methodSpans term text).flatMap Span.blocks := by
        rw [earlier.removedBlocks_append, removedBlocks, passed]
        simp [removedBlocks]
      rw [blocks]
      constructor
      · rw [sumResult, sum, List.map_append, List.sum_append]
        omega
      · intro even never
        refine keptResult (fun block member => even block (List.mem_append_right _ member)) ?_
        exact kept (fun block member => even block (List.mem_append_left _ member)) never

/-! ### The lines in force -/

/-- The balance of the line that a line stands for, if it stands for any. -/
def originBalance : Option Line → Int
  | none => 0
  | some line => braceBalance line

theorem originBalance_none : originBalance none = 0 := rfl

/-- The origins of the lines that stand for a span. Comments have none, and a placeholder has that
of the line which it replaces. -/
def Span.origins (carried : List (Option Line)) : Span → List (Option Line)
  | .kept _ => carried
  | .removed method => (Span.removed method).after.map fun _ => none
  | .commented line _ => (commentedLine line).map fun added =>
      if isLineComment added then none else carried.head?.join

/-- The origins of the lines behind a pass. -/
def originsThrough : List Span → List (Option Line) → List (Option Line)
  | [], _ => []
  | span :: spans, carried =>
    span.origins (carried.take span.before.length) ++
      originsThrough spans (carried.drop span.before.length)

/-- The origins of the lines behind the sweeps for some terms. -/
def origins : List Text → Text → List (Option Line) → List (Option Line)
  | [], _, carried => carried
  | term :: terms, text, carried =>
    let between := (methodPass term text).1
    match linePass term between with
    | .ok (result, _) => origins terms result <|
        originsThrough (lineSpans term between) (originsThrough (methodSpans term text) carried)
    | .error _ => carried

/-- The lines of a source that are in force behind the sweeps for some terms: those that stand as
they are, and those that placeholders stand for. -/
def inForce (terms : List Text) (source : Text) : List Line :=
  (origins terms source ((lines source).map some)).reduceOption

theorem Swept.origins_append {source text : Text} {terms : List Text} {findings : List Finding}
    (swept : Swept source terms text findings) (more : List Text) (carried : List (Option Line)) :
    origins (terms ++ more) source carried = origins more text (origins terms source carried) := by
  induction swept generalizing more with
  | start => rfl
  | @sweep terms text result term findings inLines earlier passed inductionHypothesis =>
      have next (rest : List Text) (tags : List (Option Line)) :
          origins (term :: rest) text tags = origins rest result
            (originsThrough (lineSpans term (methodPass term text).1)
              (originsThrough (methodSpans term text) tags)) := by
        rw [origins]
        simp only [passed]
      have last (tags : List (Option Line)) : origins [] result tags = tags := by rw [origins]
      rw [List.append_assoc, List.singleton_append, inductionHypothesis, inductionHypothesis, next,
        next, last]

/-- The origins of a span have the balances of its lines. -/
theorem Span.map_origins {span : Span} (whole : span.IsWhole) {carried : List (Option Line)}
    (same : span.before.map liveBalance = carried.map originBalance) :
    span.after.map liveBalance = (span.origins carried).map originBalance := by
  cases span with
  | kept line => exact same
  | removed method =>
      rw [origins, List.map_map]
      refine List.map_congr_left fun line member => ?_
      exact liveBalance_after_removed method _ (List.mem_map_of_mem member)
  | commented line assigned =>
      obtain ⟨isCode, single⟩ := whole
      rw [before, List.map_singleton, liveBalance_of_isCode isCode, eq_comm,
        List.map_eq_singleton_iff] at same
      obtain ⟨origin, rfl, balance⟩ := same
      obtain ⟨comment, slashes, brace⟩ := commentedLine_eq single
      have still := liveBalance_of_isLineComment slashes
      rcases brace with ⟨-, whole⟩ | ⟨placeholder, whole, added, held⟩
      · simp [after, origins, whole, slashes, still, originBalance_none]
      · simp [after, origins, whole, slashes, still, originBalance_none, held, balance,
          isLineComment_of_isPlaceholder added]

/-- A span drops origins and adds none. -/
theorem Span.origins_sublist {span : Span} (whole : span.IsWhole) (carried : List (Option Line)) :
    (span.origins carried).reduceOption.Sublist carried.reduceOption := by
  cases span with
  | kept line => exact List.Sublist.refl _
  | removed method =>
      have dropped : ((Span.removed method).origins carried).reduceOption = [] := by
        simp [origins, List.reduceOption]
      rw [dropped]
      exact List.nil_sublist _
  | commented line assigned =>
      obtain ⟨comment, slashes, brace⟩ := commentedLine_eq whole.2
      rcases brace with ⟨-, whole⟩ | ⟨placeholder, whole, added, -⟩
      · simp [origins, whole, slashes]
      · cases carried with
        | nil => simp [origins, whole]
        | cons origin carried =>
            cases origin <;> simp [origins, whole, slashes, isLineComment_of_isPlaceholder added]

theorem originsThrough_sublist {spans : List Span} (whole : ∀ span ∈ spans, span.IsWhole)
    (carried : List (Option Line)) :
    (originsThrough spans carried).reduceOption.Sublist carried.reduceOption := by
  induction spans generalizing carried with
  | nil => exact List.nil_sublist _
  | cons span spans inductionHypothesis =>
      have first := Span.origins_sublist (whole span (by simp)) (carried.take span.before.length)
      have others := inductionHypothesis (fun other member => whole other (by simp [member]))
        (carried.drop span.before.length)
      rw [originsThrough, List.reduceOption_append]
      conv_rhs => rw [← List.take_append_drop span.before.length carried, List.reduceOption_append]
      exact first.append others

theorem map_originsThrough {spans : List Span} (whole : ∀ span ∈ spans, span.IsWhole)
    {carried : List (Option Line)}
    (same : spans.flatMap (fun span => span.before.map liveBalance) =
      carried.map originBalance) :
    spans.flatMap (fun span => span.after.map liveBalance) =
      (originsThrough spans carried).map originBalance := by
  induction spans generalizing carried with
  | nil => rfl
  | cons span spans inductionHypothesis =>
      rw [List.flatMap_cons, List.append_eq_map_iff] at same
      obtain ⟨here, rest, rfl, first, others⟩ := same
      have size : span.before.length = here.length := by
        simpa using congrArg List.length first.symm
      rw [List.flatMap_cons, originsThrough, size, List.take_left, List.drop_left, List.map_append,
        Span.map_origins (whole span (by simp)) first.symm,
        inductionHypothesis (fun other member => whole other (by simp [member])) others.symm]

/-- A sweep moves the balances of lines and of their origins alike. -/
theorem liveSteps_originsThrough {term text result : Text} {inLines : List Finding}
    {carried : List (Option Line)} (single : ∀ line ∈ lines text, braceCount line ≤ 1)
    (passed : linePass term (methodPass term text).1 = .ok (result, inLines))
    (same : liveSteps text = carried.map originBalance) :
    liveSteps result = (originsThrough (lineSpans term (methodPass term text).1)
      (originsThrough (methodSpans term text) carried)).map originBalance := by
  have first := (pass_methodPass term text).liveSteps_eq
  have second := (pass_linePass passed).1.liveSteps_eq
  obtain ⟨wholeFirst, wholeSecond, -⟩ := isWhole_of_sweep single passed
  rw [first.1] at same
  have between := map_originsThrough wholeFirst same
  rw [← first.2, second.1] at between
  rw [second.2]
  exact map_originsThrough wholeSecond between

/-- The live depth of a text is that of the source lines in force. -/
theorem Swept.liveSteps_origins {source text : Text} {terms : List Text} {findings : List Finding}
    {carried : List (Option Line)} (swept : Swept source terms text findings)
    (single : ∀ line ∈ lines source, braceCount line ≤ 1)
    (same : liveSteps source = carried.map originBalance) :
    liveSteps text = (origins terms source carried).map originBalance ∧
      (origins terms source carried).reduceOption.Sublist carried.reduceOption := by
  induction swept with
  | start => exact ⟨same, List.Sublist.refl _⟩
  | @sweep terms text result term findings inLines earlier passed inductionHypothesis =>
      obtain ⟨sameText, fewer⟩ := inductionHypothesis
      have singleText := earlier.braceCount_le single
      obtain ⟨wholeFirst, wholeSecond, -⟩ := isWhole_of_sweep singleText passed
      have next : origins (terms ++ [term]) source carried =
          originsThrough (lineSpans term (methodPass term text).1)
            (originsThrough (methodSpans term text) (origins terms source carried)) := by
        rw [earlier.origins_append, origins]
        simp only [passed, origins]
      rw [next]
      refine ⟨liveSteps_originsThrough singleText passed sameText, ?_⟩
      exact (originsThrough_sublist wholeSecond _).trans
        ((originsThrough_sublist wholeFirst _).trans fewer)

theorem sum_originBalance (carried : List (Option Line)) :
    (carried.map originBalance).sum = (carried.reduceOption.map braceBalance).sum := by
  induction carried with
  | nil => rfl
  | cons origin carried inductionHypothesis =>
      rw [List.map_cons, List.sum_cons, inductionHypothesis]
      cases origin with
      | none =>
          rw [originBalance_none, Int.zero_add]
          rfl
      | some line => rw [List.reduceOption_cons_of_some, List.map_cons, List.sum_cons, originBalance]

theorem neverNegative_originBalance (carried : List (Option Line)) (depth : Int) :
    NeverNegative depth (carried.map originBalance) ↔
      NeverNegative depth (carried.reduceOption.map braceBalance) := by
  induction carried generalizing depth with
  | nil => rfl
  | cons origin carried inductionHypothesis =>
      cases origin with
      | none =>
          rw [List.map_cons, originBalance_none, neverNegative_zero_cons, inductionHypothesis]
          rfl
      | some line =>
          simp only [List.map_cons, List.reduceOption_cons_of_some, NeverNegative,
            inductionHypothesis, originBalance]

/-- Lines without an origin do not show in the balance. -/
theorem isBalanced_originBalance (carried : List (Option Line)) :
    IsBalanced (carried.map originBalance) ↔
      IsBalanced (carried.reduceOption.map braceBalance) := by
  rw [IsBalanced, IsBalanced, neverNegative_originBalance, sum_originBalance]

/-- Block structure under a removal, for a source with one brace at most on a line and none on a
comment or an import. Removed methods leave some of the source lines in force, and the live lines
of the result are balanced exactly when those lines are. A balanced source has a balanced result
if no removed method holds a surplus of braces on lines that an earlier sweep commented out. -/
theorem isBalanced_remove_iff {source : Text} {removal : Removal}
    (removed : remove vocabulary source = .ok removal)
    (single : ∀ line ∈ lines source, braceCount line ≤ 1)
    (plain : ∀ line ∈ lines source, isCommentOrImport line = true → braceCount line = 0) :
    (inForce (vocabulary ++ removal.processed) source).Sublist (lines source) ∧
      (IsBalanced (liveSteps removal.text) ↔
        IsBalanced ((inForce (vocabulary ++ removal.processed) source).map braceBalance)) ∧
      (IsBalanced ((lines source).map braceBalance) →
        (∀ block ∈ removedBlocks (vocabulary ++ removal.processed) source, surplus block = 0) →
        IsBalanced (liveSteps removal.text)) := by
  have live : liveSteps source = (lines source).map braceBalance := by
    refine List.map_congr_left fun line member => ?_
    unfold liveBalance
    split
    · rename_i comment
      have bare := plain line member (isCommentOrImport_of_isLineComment comment)
      exact (braceBalance_of_braceCount bare).symm
    · rfl
  have swept := (follows_of_remove removed).swept
  have same : liveSteps source = ((lines source).map some).map originBalance := by
    rw [live, List.map_map]
    rfl
  obtain ⟨carried, fewer⟩ := swept.liveSteps_origins single same
  obtain ⟨sum, kept⟩ := swept.liveSteps_of_source single
  refine ⟨?_, ?_, ?_⟩
  · simpa [inForce, List.reduceOption] using fewer
  · rw [carried]
    exact isBalanced_originBalance _
  · rintro ⟨never, start⟩ even
    rw [← live] at never start
    refine ⟨kept even never, ?_⟩
    rw [sum, start, Int.zero_add]
    refine List.sum_eq_zero fun excess member => ?_
    obtain ⟨block, inside, rfl⟩ := List.mem_map.mp member
    exact even block inside

/-- A class with a method that returns a reflective value. -/
def plainReflection : Text :=
  "class A \x7b\nX m() \x7b\nreturn invoke();\n\x7d\n\x7d"

/-- A method that is commented out as a whole leaves the braces of its class alone. -/
theorem isBalanced_remove_method :
    ∃ removal, remove vocabulary plainReflection = .ok removal ∧
      removal.processed = [("m" : Text)] ∧ IsBalanced (liveSteps removal.text) ∧
      IsBalanced ((inForce (vocabulary ++ [("m" : Text)]) plainReflection).map braceBalance) := by
  have run : (remove vocabulary plainReflection).map Removal.processed = .ok [("m" : Text)] := by
    decide +kernel
  obtain ⟨removal, removed, processed⟩ := exists_remove_of_map run
  obtain ⟨-, condition, whole⟩ :=
    isBalanced_remove_iff removed (by decide +kernel) (by decide +kernel)
  rw [processed] at condition whole
  have balanced := whole (by decide +kernel) (by decide +kernel)
  exact ⟨removal, removed, processed, balanced, condition.mp balanced⟩

/-- A class with a method that opens a block on a reflective line and returns a reflective value. -/
def nestedReflection : Text :=
  "class A \x7b\nX m() \x7b\nif (invoke()) \x7b\n\x7d\nreturn getField();\n\x7d\n\x7d"

/-- A brace that was commented out and is counted again moves the end of its method: here the
method takes the closing brace of its class along. -/
theorem not_isBalanced_remove :
    (∀ line ∈ lines nestedReflection, braceCount line ≤ 1 ∧ isCommentOrImport line = false) ∧
      IsBalanced ((lines nestedReflection).map braceBalance) ∧
      ∃ removal, remove vocabulary nestedReflection = .ok removal ∧
        ¬IsBalanced (liveSteps removal.text) := by
  have run : (remove vocabulary nestedReflection).map (fun removal => liveSteps removal.text) =
      .ok (1 :: List.replicate 8 0) := by decide +kernel
  obtain ⟨removal, removed, steps⟩ := exists_remove_of_map run
  refine ⟨by decide +kernel, by decide +kernel, removal, removed, ?_⟩
  rw [steps]
  decide

end Unpacking.Reflection
