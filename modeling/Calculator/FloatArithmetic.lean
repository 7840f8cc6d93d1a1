import Calculator.Evaluation
import Calculator.Number.Fixed
import Calculator.Number.Shortest

/-!
Floats as the calculator's numbers. Every division by zero gives positive infinity, zero divided
by zero too, so the value itself shows that it happened.
-/

namespace Calculator

def positiveInfinity : Float := Binary64.ofMagnitude Binary64.infinity

def applyFloat : Operator → Float → Float → Float
  | .add, left, right => left + right
  | .sub, left, right => left - right
  | .mul, left, right => left * right
  | .div, left, right => if right == 0 then positiveInfinity else left / right
  | .pow, left, right => Float.pow left right

instance : Arithmetic Float where
  ofDecimal := Decimal.toFloat
  apply := applyFloat

/-- Whether a value is the one that division by zero gives. -/
def isDivisionByZero (value : Float) : Bool := value == positiveInfinity

def Step.operation (step : Step Float) : Text :=
  Shortest.plain step.left ++ ' ' :: step.op.symbol :: ' ' :: Shortest.plain step.right

def Step.equation (step : Step Float) : Text :=
  step.operation ++ " = ".toList ++ Fixed.ofFloat step.result

def Step.listing (steps : List (Step Float)) : List Text :=
  steps.mapIdx fun i step =>
    "Step ".toList ++ Text.ofNat (i + 1) ++ ": ".toList ++ step.equation

end Calculator
