import Calculator.Number.Decimal
import Calculator.Operator

/-!
Tokens of an expression: maximal runs of digits and points, operators, and at most one character
that is neither, with which the scan ends. A run is not yet known to be a number.
-/

namespace Calculator

inductive Token where
  | numeral (run : Text)
  | operator (op : Operator)
  | unexpected (c : Char)
  deriving DecidableEq, Repr

namespace Token

def text : Token → Text
  | numeral run => run
  | operator op => [op.symbol]
  | unexpected c => [c]

/-- Puts a digit or point before tokens, into the run they begin with if there is one. -/
def consNumeral (c : Char) : List Token → List Token
  | numeral run :: rest => numeral (c :: run) :: rest
  | tokens => numeral [c] :: tokens

def scan : Text → List Token
  | [] => []
  | c :: rest =>
    if Decimal.isNumeralChar c then consNumeral c (scan rest)
    else match Operator.ofChar? c with
      | some op => operator op :: scan rest
      | none => [unexpected c]

end Token

end Calculator
