namespace Calculator.Utf8

def continuation? (byte : UInt8) : Option Nat :=
  if 0x80 ≤ byte ∧ byte ≤ 0xBF then some (byte.toNat - 0x80) else none

/-- The character that bytes are the shortest form of, if they are one. -/
def decode? : List UInt8 → Option Char
  | [a] => if a < 0x80 then some (Char.ofNat a.toNat) else none
  | [a, b] => do
    let b ← continuation? b
    if 0xC2 ≤ a ∧ a ≤ 0xDF then some (Char.ofNat ((a.toNat - 0xC0) * 0x40 + b)) else none
  | [a, b, c] => do
    let n := (a.toNat - 0xE0) * 0x1000 + (← continuation? b) * 0x40 + (← continuation? c)
    if 0xE0 ≤ a ∧ a ≤ 0xEF ∧ 0x800 ≤ n ∧ ¬ (0xD800 ≤ n ∧ n ≤ 0xDFFF) then some (Char.ofNat n)
    else none
  | [a, b, c, d] => do
    let n := (a.toNat - 0xF0) * 0x40000 + (← continuation? b) * 0x1000
      + (← continuation? c) * 0x40 + (← continuation? d)
    if 0xF0 ≤ a ∧ a ≤ 0xF4 ∧ 0x10000 ≤ n ∧ n ≤ 0x10FFFF then some (Char.ofNat n) else none
  | _ => none

end Calculator.Utf8
