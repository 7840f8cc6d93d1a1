/-!
Binary64 magnitudes as whole numbers of grains. A grain is 2^-1074, the least positive
magnitude, and every finite magnitude is a multiple of it, so exact questions about floats are
questions about natural numbers.
-/

namespace Calculator.Binary64

/-- The whole number nearest `num / den`; a half goes to the even neighbour. -/
def roundHalfEven (num den : Nat) : Nat :=
  let quotient := num / den
  let remainder := num % den
  if 2 * remainder < den then quotient
  else if den < 2 * remainder then quotient + 1
  else quotient + quotient % 2

def one : Nat := Nat.pow 2 1074

def binade : Nat := Nat.pow 2 52

def signBit : Nat := Nat.pow 2 63

/-- The word of positive infinity: the first one above all finite magnitudes. -/
def infinity : Nat := 0x7FF0000000000000

/-- The grains of a finite magnitude, read from its exponent field and significand. -/
def grains (word : Nat) : Nat :=
  let shift := word / binade - 1
  (word - shift * binade) * Nat.pow 2 shift

/-- The word of the magnitude nearest `num / den`; too large a quotient gives infinity. -/
def nearest (num den : Nat) : Nat :=
  let shift := Nat.log2 (num * one / den) - 52
  let significand := roundHalfEven (num * one) (den * Nat.pow 2 shift)
  min (significand + shift * binade) infinity

inductive Value where
  | notANumber
  | infinite (negative : Bool)
  | finite (negative : Bool) (grains : Nat)
  deriving DecidableEq, Repr

def Value.ofWord (word : Nat) : Value :=
  let negative := decide (signBit ≤ word)
  let magnitude := word % signBit
  if infinity < magnitude then .notANumber
  else if magnitude = infinity then .infinite negative
  else .finite negative (grains magnitude)

def Value.ofFloat (x : Float) : Value := .ofWord x.toBits.toNat

def ofMagnitude (magnitude : Nat) : Float := Float.ofBits (UInt64.ofNat magnitude)

end Calculator.Binary64
