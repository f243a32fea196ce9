import Unpacking.Text.Basic

/-!
The order of texts by their first differing character, which is also the order of their UTF-8
forms. Main statements: the order is irreflexive, transitive and total.
-/

namespace Unpacking.Text

/-- A text comes strictly before another one. -/
def precedes : Text → Text → Bool
  | [], [] => false
  | [], _ :: _ => true
  | _ :: _, [] => false
  | a :: left, b :: right => if a = b then precedes left right else decide (a.toNat < b.toNat)

theorem precedes_irrefl (text : Text) : precedes text text = false := by
  induction text with
  | nil => rfl
  | cons c rest inductionHypothesis => simp [precedes, inductionHypothesis]

theorem precedes_trans {a b c : Text} (left : precedes a b = true) (right : precedes b c = true) :
    precedes a c = true := by
  induction a generalizing b c with
  | nil =>
    cases c with
    | nil => cases b <;> simp [precedes] at left right
    | cons => rfl
  | cons x a inductionHypothesis =>
    cases b with
    | nil => simp [precedes] at left
    | cons y b =>
      cases c with
      | nil => simp [precedes] at right
      | cons z c =>
        by_cases xy : x = y
        · by_cases yz : y = z
          · subst xy yz
            simp [precedes] at left right ⊢
            exact inductionHypothesis left right
          · subst xy
            simpa [precedes, yz] using right
        · by_cases yz : y = z
          · subst yz
            simpa [precedes, xy] using left
          · simp [precedes, xy, yz] at left right
            have xz : x ≠ z := by
              intro same
              subst same
              omega
            simp [precedes, xz]
            omega

theorem precedes_asymm {a b : Text} (before : precedes a b = true) : ¬ precedes b a = true := by
  intro after
  have circle := precedes_trans before after
  rw [precedes_irrefl] at circle
  exact Bool.noConfusion circle

theorem precedes_total {a b : Text} (different : a ≠ b) (notBefore : precedes a b = false) :
    precedes b a = true := by
  induction a generalizing b with
  | nil => cases b <;> simp_all [precedes]
  | cons x a inductionHypothesis =>
    cases b with
    | nil => rfl
    | cons y b =>
      by_cases same : x = y
      · subst same
        simp [precedes] at notBefore ⊢
        exact inductionHypothesis (fun equal => different (by rw [equal])) notBefore
      · have codes : x.toNat ≠ y.toNat := fun equal => same (Char.toNat_inj.mp equal)
        simp [precedes, same, Ne.symm same] at notBefore ⊢
        omega

end Unpacking.Text
