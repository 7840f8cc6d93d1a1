import Calculator.Text.Basic
import Calculator.Number.Binary64

namespace Calculator

/-- The number `digits / 10 ^ places`. -/
structure Decimal where
  digits : Nat
  places : Nat
  deriving DecidableEq, Repr

namespace Decimal

def isNumeralChar (c : Char) : Bool := c.isDigit || c == '.'

def digitValue (c : Char) : Nat := c.toNat - '0'.toNat

def ofDigits (digits : Text) : Nat :=
  digits.foldl (fun n c => 10 * n + digitValue c) 0

/-- Reads a run of digits and points; `none` when it has no digit or a second point. -/
def ofRun? (run : Text) : Option Decimal :=
  let whole := run.takeWhile Char.isDigit
  let fraction := (run.dropWhile Char.isDigit).drop 1
  if (whole ++ fraction).isEmpty || !fraction.all Char.isDigit then none
  else some ⟨ofDigits (whole ++ fraction), fraction.length⟩

def toFloat (d : Decimal) : Float :=
  Binary64.ofMagnitude (Binary64.nearest d.digits (Nat.pow 10 d.places))

end Decimal

end Calculator
