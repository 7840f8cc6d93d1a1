import Calculator.Text.Basic
import Calculator.Number.Binary64

/-!
The shortest decimal that reads back as a given float, and its two layouts: plain digits, and
the one of log lines, which turns to an exponent for very small and very large numbers.

For 1, 2, ... 17 digits the two neighbours of the number on that decimal grid are read back.
The first grid with a hit decides; of two hits the nearer one is taken, and the upper one when
both are equally near.
-/

namespace Calculator.Shortest

/-- The magnitude 0.d₁d₂... · 10 ^ `point`. -/
structure Digits where
  digits : Text
  point : Int
  deriving DecidableEq, Repr

/-- The finest place of a grid, finer than any float needs. -/
def depth : Nat := 400

def fine : Nat := Nat.pow 10 depth

def trimZeros (digits : Text) : Text :=
  (digits.reverse.dropWhile (· == '0')).reverse

/-- The point of a grid with this spacing to write the magnitude by, if one reads back. -/
def onGrid? (grains spacing : Nat) : Option Nat :=
  let den := Binary64.one * spacing
  let low := grains * fine / den
  let readsBack n := Binary64.grains (Binary64.nearest (n * spacing) fine) == grains
  let upperNearer := decide (den ≤ 2 * (grains * fine % den))
  match readsBack low, readsBack (low + 1) with
  | true, true => some (if upperNearer then low + 1 else low)
  | true, false => some low
  | false, true => some (low + 1)
  | false, false => none

/-- The digits of a positive magnitude. The leading digit stands `size` places above the
finest unit, so `count` digits make a grid of spacing `10 ^ (size - count)`. -/
def ofGrains (grains : Nat) : Digits :=
  let size := (Text.ofNat (grains * fine / Binary64.one)).length
  let written (count : Nat) : Option Digits :=
    (onGrid? grains (Nat.pow 10 (size - count))).map fun n =>
      let digits := Text.ofNat n
      ⟨trimZeros digits, (digits.length + (size - count) : Nat) - (depth : Int)⟩
  ((List.range' 1 17).findSome? written).getD ⟨['0'], 0⟩

def Digits.plain (d : Digits) : Text :=
  let size := d.digits.length
  if d.point ≤ 0 then "0.".toList ++ List.replicate d.point.natAbs '0' ++ d.digits
  else if size ≤ d.point.toNat then d.digits ++ List.replicate (d.point.toNat - size) '0'
  else d.digits.take d.point.toNat ++ '.' :: d.digits.drop d.point.toNat

def Digits.scientific (d : Digits) : Text :=
  let exponent := d.point - 1
  let power := (if exponent < 0 then ['-'] else []) ++ Text.ofNat exponent.natAbs
  match d.digits with
  | [] => []
  | [c] => c :: 'e' :: power
  | c :: rest => c :: '.' :: rest ++ 'e' :: power

def Digits.pointed (d : Digits) : Text :=
  if d.digits.length ≤ d.point.toNat then d.plain ++ ".0".toList else d.plain

def signed (negative : Bool) (text : Text) : Text :=
  if negative then '-' :: text else text

def plainValue : Binary64.Value → Text
  | .notANumber => "NaN".toList
  | .infinite negative => signed negative "inf".toList
  | .finite negative 0 => signed negative ['0']
  | .finite negative grains => signed negative (ofGrains grains).plain

/-- From 10^-4 up to below 10^16 a number is written with a point, all else with a power of ten. -/
def loggedValue : Binary64.Value → Text
  | .notANumber => "NaN".toList
  | .infinite negative => signed negative "inf".toList
  | .finite negative 0 => signed negative "0.0".toList
  | .finite negative grains =>
    let d := ofGrains grains
    signed negative (if -4 < d.point ∧ d.point ≤ 16 then d.pointed else d.scientific)

def plain (x : Float) : Text := plainValue (.ofFloat x)

def logged (x : Float) : Text := loggedValue (.ofFloat x)

end Calculator.Shortest
