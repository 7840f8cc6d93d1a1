namespace Calculator

inductive Operator where
  | add
  | sub
  | mul
  | div
  | pow
  deriving DecidableEq, Repr

namespace Operator

def symbol : Operator → Char
  | add => '+'
  | sub => '-'
  | mul => '*'
  | div => '/'
  | pow => '^'

def all : List Operator := [add, sub, mul, div, pow]

def ofChar? (c : Char) : Option Operator := all.find? fun op => op.symbol == c

def isSymbol (c : Char) : Bool := (ofChar? c).isSome

def precedence : Operator → Nat
  | add | sub => 1
  | mul | div => 2
  | pow => 3

@[simp] theorem ofChar?_symbol (op : Operator) : ofChar? op.symbol = some op := by
  cases op <;> rfl

theorem ofChar?_eq_some_iff {c : Char} {op : Operator} :
    ofChar? c = some op ↔ c = op.symbol := by
  constructor
  · intro h
    have found := List.find?_some h
    exact (beq_iff_eq.mp found).symm
  · rintro rfl
    exact ofChar?_symbol op

theorem isSymbol_iff {c : Char} : isSymbol c = true ↔ ∃ op : Operator, c = op.symbol := by
  simp only [isSymbol, Option.isSome_iff_exists, ofChar?_eq_some_iff]

end Operator

end Calculator
