namespace Calculator

abbrev Text := List Char

def Text.ofNat (n : Nat) : Text := Nat.toDigits 10 n

end Calculator
