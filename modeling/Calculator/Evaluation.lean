import Calculator.Token

/-!
Evaluation of an expression in one pass over its tokens, with a stack of operands and a stack of
operators. Before an operator is stacked, all stacked ones of the same or higher precedence are
applied, so every operator groups to the left. Nothing here depends on what the numbers are.
-/

namespace Calculator

inductive EvalError where
  | empty
  | invalidNumber (run : Text)
  | unexpectedCharacter (c : Char)
  | missingOperand (op : Operator)
  | unbalanced (operands : Nat)
  deriving DecidableEq, Repr

namespace EvalError

def cause : EvalError → Text
  | empty => "empty expression".toList
  | invalidNumber run => "invalid number '".toList ++ run ++ ['\'']
  | unexpectedCharacter c => "unexpected character '".toList ++ [c, '\'']
  | missingOperand op => "operator '".toList ++ op.symbol :: "' is missing an operand".toList
  | unbalanced n => Text.ofNat n ++ " operands left without operators".toList

def message (e : EvalError) : Text := "malformed expression: ".toList ++ e.cause

end EvalError

/-- Numbers with a value for each numeral and each operator. -/
class Arithmetic (α : Type) where
  ofDecimal : Decimal → α
  apply : Operator → α → α → α

structure Step (α : Type) where
  op : Operator
  left : α
  right : α
  result : α
  deriving DecidableEq, Repr

/-- The stacks, topmost first, and the applications made so far, newest first. -/
structure Machine (α : Type) where
  operands : List α := []
  operators : List Operator := []
  steps : List (Step α) := []

/-- An error and the applications made before it, newest first. -/
structure Failure (α : Type) where
  error : EvalError
  steps : List (Step α)

namespace Machine

variable {α : Type} [Arithmetic α]

/-- Applies an operator to the two topmost operands; the right one is on top. -/
def reduce (op : Operator) (m : Machine α) : Except (Failure α) (Machine α) :=
  match m.operands with
  | right :: left :: rest =>
    let result := Arithmetic.apply op left right
    .ok { m with operands := result :: rest, steps := ⟨op, left, right, result⟩ :: m.steps }
  | _ => .error ⟨.missingOperand op, m.steps⟩

/-- Applies stacked operators from the top, down to the first of a precedence below `rank`. -/
def settle (rank : Nat) : List Operator → Machine α → Except (Failure α) (Machine α)
  | [], m => .ok { m with operators := [] }
  | op :: rest, m =>
    if rank ≤ op.precedence then m.reduce op >>= settle rank rest
    else .ok { m with operators := op :: rest }

def feed (m : Machine α) : Token → Except (Failure α) (Machine α)
  | .numeral run =>
    match Decimal.ofRun? run with
    | some d => .ok { m with operands := Arithmetic.ofDecimal d :: m.operands }
    | none => .error ⟨.invalidNumber run, m.steps⟩
  | .operator op => do
    let m ← m.settle op.precedence m.operators
    return { m with operators := op :: m.operators }
  | .unexpected c => .error ⟨.unexpectedCharacter c, m.steps⟩

def finish (m : Machine α) : Except (Failure α) (α × List (Step α)) := do
  let m ← m.settle 0 m.operators
  match m.operands with
  | [value] => .ok (value, m.steps)
  | [] => .error ⟨.empty, m.steps⟩
  | operands => .error ⟨.unbalanced operands.length, m.steps⟩

def run (tokens : List Token) : Except (Failure α) (α × List (Step α)) :=
  tokens.foldlM feed {} >>= finish

end Machine

structure Evaluation (α : Type) where
  outcome : Except EvalError α
  steps : List (Step α)

/-- Evaluates an expression; the first error in reading order ends it. -/
def evaluate {α : Type} [Arithmetic α] (expression : Text) : Evaluation α :=
  match Machine.run (Token.scan expression) with
  | .ok (value, steps) => ⟨.ok value, steps.reverse⟩
  | .error failure => ⟨.error failure.error, failure.steps.reverse⟩

/-- A record of applications that several evaluations share; it grows only if detailed. -/
structure Trace (α : Type) where
  detailed : Bool
  steps : List (Step α) := []

def Trace.evaluate {α : Type} [Arithmetic α] (trace : Trace α) (expression : Text) :
    Trace α × Except EvalError α :=
  let evaluation := Calculator.evaluate expression
  let added := if trace.detailed then evaluation.steps else []
  ({ trace with steps := trace.steps ++ added }, evaluation.outcome)

end Calculator
