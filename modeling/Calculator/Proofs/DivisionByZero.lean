import Calculator.Proofs.Acceptance
import Calculator.Proofs.FloatFinite
import Calculator.Proofs.SessionRun
import Calculator.Report

/-! Division by zero leaves no finite result.

The infinity that a division by zero gives is a number like any other, and dividing by it would give
zero. But in a grouped tree a quotient is never a divisor, a base or an exponent: it is a left operand
of a product or quotient, or an operand of a sum or difference, and there infinity stays. -/

namespace Calculator

/-- The application of a division to a right operand equal to zero. -/
def Step.DividesByZero (step : Step Float) : Prop := step.op = .div ∧ step.right == 0

namespace Tree

theorem operator_of_step {α : Type} [Arithmetic α] {tree : Tree} {step : Step α}
    (member : step ∈ tree.steps) : step.op ∈ tree.operators := by
  induction tree with
  | literal l => cases member
  | node op left right ihl ihr =>
      simp only [steps, List.mem_append, List.mem_singleton] at member
      simp only [operators, List.mem_append, List.mem_cons]
      rcases member with (inLeft | inRight) | rfl
      · exact Or.inl (ihl inLeft)
      · exact Or.inr (Or.inr (ihr inRight))
      · exact Or.inr (Or.inl rfl)

/-- Where a division happens below an operand, the operand binds no more tightly than a quotient. -/
theorem binds_le_of_division {level : Nat} {tree : Tree} (binds : tree.Binds level)
    {step : Step Float} (member : step ∈ tree.steps) (zero : step.DividesByZero) : level ≤ 2 := by
  have bound := binds step.op (operator_of_step member)
  rw [zero.1] at bound
  exact bound

theorem not_finite_of_division {tree : Tree} (grouped : tree.Grouped) {step : Step Float}
    (member : step ∈ tree.steps) (zero : step.DividesByZero) : ¬ (tree.value : Float).isFinite := by
  induction tree with
  | literal l => cases member
  | node op left right ihl ihr =>
      rcases grouped with ⟨groupedLeft, groupedRight, bindsLeft, bindsRight⟩
      simp only [steps, List.mem_append, List.mem_singleton] at member
      intro finite
      change (applyFloat op left.value right.value).isFinite at finite
      rcases member with (inLeft | inRight) | rfl
      · have looser := op.precedence_eq_rank.trans_le (binds_le_of_division bindsLeft inLeft zero)
        exact ihl groupedLeft inLeft (left_finite_of_applyFloat looser finite)
      · have looser := Nat.le_of_succ_le_succ (binds_le_of_division bindsRight inRight zero)
        exact ihr groupedRight inRight
          (right_finite_of_applyFloat (op.precedence_eq_rank.trans_le looser) finite)
      · rcases zero with ⟨division, divisor⟩
        change op = .div at division
        rw [division] at finite
        exact applyFloat_zero_divisor divisor finite

end Tree

theorem Report.ofExpression_not_finite {text : Text} {value : Float}
    (ok : (evaluate text : Evaluation Float).outcome = .ok value) (infinite : ¬ value.isFinite)
    (details : Bool) : Report.ofExpression text details = ⟨"Error".toList, false⟩ := by
  simp only [Report.ofExpression, ok, if_neg infinite]

theorem Session.recorded_not_finite {s : Session} {value : Float}
    (ok : (evaluate s.buffer : Evaluation Float).outcome = .ok value)
    (infinite : ¬ value.isFinite) : s.recorded? = none := by
  simp only [Session.recorded?, ok, if_neg infinite]

/-- An evaluation in which a division by zero happens ends with a value that is not finite, so its
report is an error, and an equals press on it fails and records nothing. -/
theorem not_finite_of_division_by_zero {text : Text} {value : Float}
    (ok : (evaluate text : Evaluation Float).outcome = .ok value)
    (zero : ∃ step ∈ (evaluate text : Evaluation Float).steps, step.op = .div ∧ step.right == 0) :
    ¬ value.isFinite ∧
      (∀ details, Report.ofExpression text details = ⟨"Error".toList, false⟩) ∧
      ∀ s : Session, s.buffer = text →
        (s.press .equals).display = .error ∧ (s.press .equals).history = s.history := by
  have infinite : ¬ value.isFinite := by
    rcases chain_of_ok ok with ⟨chain, rfl⟩
    rcases zero with ⟨step, member, zero⟩
    rw [evaluate_text] at ok member
    cases ok
    exact Tree.not_finite_of_division chain.parses_tree.grouped member zero
  refine ⟨infinite, Report.ofExpression_not_finite ok infinite, ?_⟩
  intro s same
  rw [← same] at ok
  have unrecorded := Session.recorded_not_finite ok infinite
  change s.equals.display = .error ∧ s.equals.history = s.history
  rw [Session.equals_of_none unrecorded]
  exact ⟨rfl, rfl⟩

theorem not_finite_of_underflow :
    let text := "1-1/0.".toList ++ List.replicate 400 '0' ++ "1*3".toList
    (evaluate text : Evaluation Float).outcome = .ok (0 - positiveInfinity) ∧
      (∃ step ∈ (evaluate text : Evaluation Float).steps, step.op = .div ∧ step.right == 0) ∧
      Report.ofExpression text true = ⟨"Error".toList, false⟩ := by
  intro text
  have ok : (evaluate text : Evaluation Float).outcome = .ok (0 - positiveInfinity) := by
    decide +kernel
  have zero : ∃ step ∈ (evaluate text : Evaluation Float).steps, step.op = .div ∧ step.right == 0 := by
    decide +kernel
  exact ⟨ok, zero, (not_finite_of_division_by_zero ok zero).2.1 true⟩

end Calculator
