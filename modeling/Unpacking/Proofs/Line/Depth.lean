import Mathlib.Algebra.BigOperators.Group.List.Basic
import Mathlib.Algebra.Ring.Int.Defs
import Unpacking.Proofs.Line.Basic

/-!
The running brace depth over lines: it is balanced when it is never negative and ends at zero. A
line behind two slashes does not move it.
-/

namespace Unpacking.Line

open Text

/-- The depth, and every depth on the way through some steps, is never negative. -/
def NeverNegative (depth : Int) : List Int → Prop
  | [] => 0 ≤ depth
  | step :: steps => 0 ≤ depth ∧ NeverNegative (depth + step) steps

instance NeverNegative.decidable :
    (depth : Int) → (steps : List Int) → Decidable (NeverNegative depth steps)
  | depth, [] => inferInstanceAs (Decidable (0 ≤ depth))
  | depth, step :: steps =>
    have := NeverNegative.decidable (depth + step) steps
    inferInstanceAs (Decidable (0 ≤ depth ∧ NeverNegative (depth + step) steps))

/-- The running depth starts and ends at zero and is never negative. -/
def IsBalanced (steps : List Int) : Prop :=
  NeverNegative 0 steps ∧ steps.sum = 0

instance (steps : List Int) : Decidable (IsBalanced steps) :=
  inferInstanceAs (Decidable (_ ∧ _))

theorem NeverNegative.nonneg {depth : Int} {steps : List Int} (never : NeverNegative depth steps) :
    0 ≤ depth := by
  cases steps with
  | nil => exact never
  | cons step steps => exact never.1

theorem neverNegative_append {depth : Int} {steps more : List Int} :
    NeverNegative depth (steps ++ more) ↔
      NeverNegative depth steps ∧ NeverNegative (depth + steps.sum) more := by
  induction steps generalizing depth with
  | nil =>
      simp only [List.nil_append, List.sum_nil, Int.add_zero]
      exact ⟨fun never => ⟨never.nonneg, never⟩, fun both => both.2⟩
  | cons step steps inductionHypothesis =>
      simp only [List.cons_append, NeverNegative, inductionHypothesis, List.sum_cons,
        Int.add_assoc, and_assoc]

/-- Steps that are replaced group by group, with the same sum, are never negative again. -/
theorem neverNegative_flatMap {α : Type} {groups : List α} {before after : α → List Int}
    (kept : ∀ group ∈ groups, ∀ depth, NeverNegative depth (before group) →
      NeverNegative depth (after group))
    (same : ∀ group ∈ groups, (after group).sum = (before group).sum) {depth : Int}
    (never : NeverNegative depth (groups.flatMap before)) :
    NeverNegative depth (groups.flatMap after) := by
  induction groups generalizing depth with
  | nil => exact never
  | cons group groups inductionHypothesis =>
      rw [List.flatMap_cons, neverNegative_append] at never ⊢
      rw [same group (by simp)]
      refine ⟨kept group (by simp) depth never.1, ?_⟩
      exact inductionHypothesis (fun other member => kept other (by simp [member]))
        (fun other member => same other (by simp [member])) never.2

theorem neverNegative_of_forall_zero {depth : Int} {steps : List Int} (start : 0 ≤ depth)
    (still : ∀ step ∈ steps, step = 0) : NeverNegative depth steps := by
  induction steps with
  | nil => exact start
  | cons step steps inductionHypothesis =>
      refine ⟨start, ?_⟩
      rw [still step (by simp), Int.add_zero]
      exact inductionHypothesis fun other member => still other (by simp [member])

/-- A step of zero does not show in the running depth. -/
theorem neverNegative_zero_cons {depth : Int} {steps : List Int} :
    NeverNegative depth (0 :: steps) ↔ NeverNegative depth steps := by
  rw [NeverNegative, Int.add_zero]
  exact ⟨fun both => both.2, fun never => ⟨never.nonneg, never⟩⟩

/-! ### Live and commented braces -/

/-- The depth that each line of a text adds. -/
def liveSteps (text : Text) : List Int :=
  (lines text).map liveBalance

/-- The brace balance of a line behind two slashes, and none for any other line. -/
def commentBalance (line : Line) : Int :=
  if isLineComment line then braceBalance line else 0

/-- The braces that the commented lines of a block open in excess. -/
def surplus (block : List Line) : Int :=
  (block.map commentBalance).sum

theorem sum_liveBalance_add_surplus (block : List Line) :
    (block.map liveBalance).sum + surplus block = (block.map braceBalance).sum := by
  unfold surplus
  induction block with
  | nil => rfl
  | cons line block inductionHypothesis =>
      have split : liveBalance line + commentBalance line = braceBalance line := by
        unfold liveBalance commentBalance
        split <;> simp
      simp only [List.map_cons, List.sum_cons]
      omega

theorem liveBalance_of_isLineComment {line : Line} (comment : isLineComment line = true) :
    liveBalance line = 0 := by
  simp [liveBalance, comment]

theorem liveBalance_of_isCode {line : Line} (isCode : isLineComment line = false) :
    liveBalance line = braceBalance line := by
  simp [liveBalance, isCode]

end Unpacking.Line
