import Calculator.FloatArithmetic

namespace Calculator

structure Report where
  output : Text
  success : Bool
  deriving DecidableEq, Repr

/-- The result, followed with details by a line for each operator applied. A result that is not
finite is an error like a malformed expression. -/
def Report.ofExpression (expression : Text) (details : Bool) : Report :=
  let evaluation : Evaluation Float := evaluate expression
  match evaluation.outcome with
  | .ok value =>
    if value.isFinite then
      let steps := if details then Step.listing evaluation.steps else []
      ⟨Fixed.ofFloat value ++ steps.flatMap ("\n  ".toList ++ ·), true⟩
    else ⟨"Error".toList, false⟩
  | .error _ => ⟨"Error".toList, false⟩

end Calculator
