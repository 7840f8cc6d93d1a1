import Calculator.Operator
import Calculator.Text.Blank

namespace Calculator

def loosen (c : Char) : Text := if Operator.isSymbol c then [' ', c, ' '] else [c]

def spaced (expression : Text) : Text :=
  [' '].intercalate (Text.words (expression.flatMap loosen))

end Calculator
