import Calculator.Text.Basic
import Calculator.Number.Binary64

namespace Calculator.Fixed

def million : Nat := 1000000

/-- The millionths nearest to a number of grains; a half goes to the even neighbour. -/
def millionths (grains : Nat) : Nat :=
  Binary64.roundHalfEven (grains * million) Binary64.one

/-- The digits of `n / 10 ^ places` after the point, up to the last that is not zero. -/
def fraction : (places n : Nat) → Text
  | 0, _ => []
  | _ + 1, 0 => []
  | places + 1, n + 1 =>
    let unit := Nat.pow 10 places
    Nat.digitChar ((n + 1) / unit) :: fraction places ((n + 1) % unit)

def unsigned (n : Nat) : Text :=
  let whole := Text.ofNat (n / million)
  let rest := fraction 6 (n % million)
  if rest.isEmpty then whole else whole ++ '.' :: rest

def ofValue : Binary64.Value → Text
  | .notANumber => "NaN".toList
  | .infinite negative => if negative then "-inf".toList else "inf".toList
  | .finite negative grains =>
    let n := millionths grains
    if negative && n != 0 then '-' :: unsigned n else unsigned n

def ofFloat (x : Float) : Text := ofValue (.ofFloat x)

end Calculator.Fixed
