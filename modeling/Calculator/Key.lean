import Calculator.Number.Decimal
import Calculator.Operator

namespace Calculator

/-- A key of the keypad; `digit` stands for the point as well. -/
inductive Key where
  | digit (c : Char)
  | operator (op : Operator)
  | percent
  | equals
  | clear
  | backspace
  deriving DecidableEq, Repr

namespace Key

def ofChar? (c : Char) : Option Key :=
  if Decimal.isNumeralChar c then some (digit c)
  else if c = '%' then some percent
  else if c = '=' then some equals
  else (Operator.ofChar? c).map operator

def label : Key → Text
  | digit c => [c]
  | operator op => [op.symbol]
  | percent => ['%']
  | equals => ['=']
  | clear => ['C']
  | backspace => ['<', '<']

def layout : List (List Key) :=
  [[clear, backspace, percent, operator .pow],
   [digit '7', digit '8', digit '9', operator .add],
   [digit '4', digit '5', digit '6', operator .sub],
   [digit '1', digit '2', digit '3', operator .mul],
   [digit '.', digit '0', equals, operator .div]]

end Key

end Calculator
