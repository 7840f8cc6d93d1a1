import Calculator.Text.Basic

namespace Calculator

structure Entry where
  expression : Text
  result : Text
  deriving DecidableEq, Repr

def Entry.text (entry : Entry) : Text :=
  entry.expression ++ " = ".toList ++ entry.result

abbrev History := List Entry

def History.record (history : History) (entry : Entry) : History := history ++ [entry]

end Calculator
