import Calculator.Text.Basic
import Calculator.Operator

namespace Calculator

abbrev Buffer := Text

namespace Buffer

def acceptsOperator (buffer : Buffer) : Bool :=
  buffer.getLast?.any fun c => !Operator.isSymbol c

def digit (buffer : Buffer) (c : Char) : Buffer := buffer ++ [c]

def operator (buffer : Buffer) (op : Operator) : Buffer :=
  if buffer.acceptsOperator then buffer ++ [op.symbol] else buffer

def percent (buffer : Buffer) : Buffer :=
  if buffer.acceptsOperator then buffer ++ ['/', '1', '0', '0'] else buffer

def backspace (buffer : Buffer) : Buffer := buffer.dropLast

end Buffer

end Calculator
