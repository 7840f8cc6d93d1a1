import Mathlib.Tactic.Ring
import Calculator.Proofs.FloatWord
import Calculator.Proofs.Reread

namespace Calculator

namespace Decimal

theorem ofDigits_append (left right : Text) :
    ofDigits (left ++ right) = ofDigits left * 10 ^ right.length + ofDigits right := by
  change Nat.ofDigitChars 10 (left ++ right) 0 =
    Nat.ofDigitChars 10 left 0 * 10 ^ right.length + Nat.ofDigitChars 10 right 0
  rw [Nat.ofDigitChars_append, Nat.ofDigitChars_eq_ofDigitChars_zero, Nat.mul_comm]

theorem ofDigits_toDigits (n : Nat) : ofDigits (Nat.toDigits 10 n) = n :=
  Nat.ofDigitChars_ten_toDigits

theorem ofDigits_digitChar {digit : Nat} (below : digit < 10) :
    ofDigits [Nat.digitChar digit] = digit := by
  rw [← Nat.toDigits_of_lt_base below, ofDigits_toDigits]

end Decimal

namespace Fixed

open Binary64

theorem fraction_value (places n : Nat) (below : n < 10 ^ places) :
    ∃ missing, (fraction places n).length + missing = places ∧
      Decimal.ofDigits (fraction places n) * 10 ^ missing = n := by
  induction places generalizing n with
  | zero =>
      have zero : n = 0 := by omega
      exact ⟨0, rfl, by rw [zero]; rfl⟩
  | succ places ih =>
      cases n with
      -- all places that are left are zeros, and none of them is written
      | zero => exact ⟨places + 1, by simp [fraction], by simp [fraction, Decimal.ofDigits]⟩
      | succ n =>
          have unit : 0 < 10 ^ places := Nat.pow_pos (by decide)
          have digit : (n + 1) / 10 ^ places < 10 := Nat.div_lt_of_lt_mul below
          have unfolded : fraction (places + 1) (n + 1) =
              [Nat.digitChar ((n + 1) / 10 ^ places)] ++ fraction places ((n + 1) % 10 ^ places) := rfl
          rcases ih _ (Nat.mod_lt (n + 1) unit) with ⟨missing, length, value⟩
          have split := Nat.div_add_mod' (n + 1) (10 ^ places)
          rw [unfolded, Decimal.ofDigits_append, Decimal.ofDigits_digitChar digit]
          generalize fraction places ((n + 1) % 10 ^ places) = rest at length value ⊢
          refine ⟨missing, by simp only [List.length_append, List.length_singleton]; omega, ?_⟩
          calc
            ((n + 1) / 10 ^ places * 10 ^ rest.length + Decimal.ofDigits rest) * 10 ^ missing =
                (n + 1) / 10 ^ places * 10 ^ (rest.length + missing) +
                  Decimal.ofDigits rest * 10 ^ missing := by
              rw [Nat.pow_add]
              ring
            _ = (n + 1) / 10 ^ places * 10 ^ places + (n + 1) % 10 ^ places := by rw [length, value]
            _ = n + 1 := split

theorem ofRun?_unsigned (n : Nat) : Decimal.ofRun? (unsigned n) =
    some ⟨Decimal.ofDigits (Text.ofNat (n / million) ++ fraction 6 (n % million)),
      (fraction 6 (n % million)).length⟩ := by
  have whole := whole_digits (n / million)
  have nonempty : Text.ofNat (n / million) ≠ [] := Nat.toDigits_ne_nil
  have rest : ∀ c ∈ fraction 6 (n % million), c.isDigit :=
    fraction_digits 6 _ (Nat.mod_lt n million_pos)
  unfold unsigned
  by_cases none : (fraction 6 (n % million)).isEmpty
  · simp only [none, if_true]
    rw [Decimal.ofRun?_whole whole, List.isEmpty_iff.mp none, List.append_nil,
      if_neg (mt List.isEmpty_iff.mp nonempty)]
    rfl
  · simp only [none, if_false, Bool.false_eq_true]
    rw [Decimal.ofRun?_pointed whole, if_neg]
    simpa [nonempty] using rest

theorem unsigned_value (n : Nat) : ∃ d missing, Decimal.ofRun? (unsigned n) = some d ∧
    d.digits * 10 ^ missing = n ∧ 10 ^ d.places * 10 ^ missing = million := by
  rcases fraction_value 6 (n % million) (Nat.mod_lt n million_pos) with ⟨missing, length, part⟩
  have places : 10 ^ (fraction 6 (n % million)).length * 10 ^ missing = million := by
    rw [← Nat.pow_add, length]
    rfl
  refine ⟨_, missing, ofRun?_unsigned n, ?_, places⟩
  calc
    Decimal.ofDigits (Text.ofNat (n / million) ++ fraction 6 (n % million)) * 10 ^ missing =
        Decimal.ofDigits (Text.ofNat (n / million)) *
            (10 ^ (fraction 6 (n % million)).length * 10 ^ missing) +
          Decimal.ofDigits (fraction 6 (n % million)) * 10 ^ missing := by
      rw [Decimal.ofDigits_append]
      ring
    _ = n / million * million + n % million := by
      rw [Text.ofNat, Decimal.ofDigits_toDigits, places, part]
    _ = n := Nat.div_add_mod' n million

theorem toFloat_of_unsigned {n : Nat} {d : Decimal} (read : Decimal.ofRun? (unsigned n) = some d) :
    d.toFloat = ofMagnitude (nearest n million) := by
  rcases unsigned_value n with ⟨other, missing, same, digits, places⟩
  rw [read] at same
  cases same
  have scale : 0 < 10 ^ missing := Nat.pow_pos (by decide)
  have scaled : nearest d.digits (10 ^ d.places) = nearest n million := by
    rw [← nearest_cancel d.digits (10 ^ d.places) scale, digits, places]
  exact congrArg ofMagnitude scaled

theorem ofFloat_ofMagnitude {word : Nat} (finite : word < infinity) :
    ofFloat (ofMagnitude word) = unsigned (millionths (grains word)) := by
  rw [ofFloat, Binary64.ofFloat_ofMagnitude finite, ofValue]
  simp only [Bool.false_and, Bool.false_eq_true, if_false]

theorem ofFloat_reread {x : Float} (finite : x.isFinite) (positive : (ofFloat x).head? ≠ some '-') :
    ∃ l : Literal, l.run = ofFloat x ∧ l.decimal.toFloat.isFinite ∧
      ofFloat l.decimal.toFloat = ofFloat x := by
  rcases ofFloat_finite finite with ⟨word, below, plain | ⟨_, signed⟩⟩
  · rw [plain]
    obtain ⟨near, same⟩ := reread below
    generalize millionths (grains word) = n at near same
    obtain ⟨l, run⟩ : ∃ l : Literal, l.run = unsigned n := ⟨⟨_, unsigned_literal n⟩, rfl⟩
    have read := l.ofRun?_run
    rw [run] at read
    have value := toFloat_of_unsigned read
    refine ⟨l, run, ?_, ?_⟩
    · rw [value]
      exact isFinite_ofMagnitude near
    · rw [value, ofFloat_ofMagnitude near, same]
  · rw [signed] at positive
    exact absurd rfl positive

end Fixed

end Calculator
