import Calculator.Number.Decimal
import Calculator.Operator
import Calculator.Screen.Style

namespace Calculator.Highlight

def numberStyle : Style := { foreground := some .lightGreen }

def operatorStyle : Style := { foreground := some .yellow, bold := true }

def single (base : Style) (c : Char) : Span :=
  if Operator.isSymbol c then ⟨[c], operatorStyle⟩
  else if c = ' ' then ⟨[c], {}⟩
  else ⟨[c], base⟩

def number (run : Text) : List Span := if run.isEmpty then [] else [⟨run, numberStyle⟩]

/-- The spans of what follows a run of digits and points, the run included. -/
def after (base : Style) : (run : Text) → Text → List Span
  | run, [] => number run
  | run, c :: rest =>
    if Decimal.isNumeralChar c then after base (run ++ [c]) rest
    else number run ++ single base c :: after base [] rest

def spans (base : Style) (expression : Text) : List Span := after base [] expression

end Calculator.Highlight
