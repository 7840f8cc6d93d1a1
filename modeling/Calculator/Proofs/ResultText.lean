import Mathlib.Tactic.Ring
import Calculator.Number.Fixed
import Calculator.Proofs.FloatFinite
import Calculator.Proofs.Literal

namespace Calculator

namespace Binary64

open Float.Model

theorem exponent_toNat (bits : BitVec 64) :
    (@UnpackedFloat.unpackExponent Format.binary64 bits).toNat =
      bits.toNat / 2 ^ 52 % 2 ^ 11 := by
  simp only [UnpackedFloat.unpackExponent, BitVec.toNat_cast]
  rw [BitVec.extractLsb_toNat, Nat.shiftRight_eq_div_pow]

theorem exponent_of_finite {x : Float} (finite : x.isFinite) :
    x.toBits.toNat / 2 ^ 52 % 2 ^ 11 ≠ 2047 := by
  intro full
  have field : @UnpackedFloat.unpackExponent Format.binary64 x.toModel.toBits.toBitVec =
      -1#_ := by
    apply BitVec.eq_of_toNat_eq
    rw [exponent_toNat]
    exact full
  exact not_finite_of_exponent field finite

theorem ofFloat_finite {x : Float} (finite : x.isFinite) :
    ∃ negative, ∃ word < infinity, Value.ofFloat x = .finite negative (grains word) := by
  have exponent := exponent_of_finite finite
  have below : x.toBits.toNat % signBit < infinity := by
    rw [show signBit = 2048 * 2 ^ 52 from rfl, show infinity = 2047 * 2 ^ 52 from rfl]
    omega
  refine ⟨decide (signBit ≤ x.toBits.toNat), x.toBits.toNat % signBit, below, ?_⟩
  rw [Value.ofFloat, Value.ofWord, if_neg (Nat.not_lt.mpr (Nat.le_of_lt below)),
    if_neg (Nat.ne_of_lt below)]

end Binary64

namespace Fixed

theorem fraction_digits (places n : Nat) (below : n < Nat.pow 10 places) :
    ∀ c ∈ fraction places n, c.isDigit := by
  induction places generalizing n with
  | zero => simp [fraction]
  | succ places ih =>
      cases n with
      | zero => simp [fraction]
      | succ n =>
          have unit : 0 < Nat.pow 10 places := Nat.pow_pos (by decide)
          have digit : (n + 1) / Nat.pow 10 places < 10 := Nat.div_lt_of_lt_mul below
          intro c member
          rcases List.mem_cons.mp member with rfl | later
          · simpa [Nat.isDigit_digitChar] using digit
          · exact ih _ (Nat.mod_lt _ unit) c later

theorem whole_digits (n : Nat) : ∀ c ∈ Text.ofNat n, c.isDigit := fun _ member =>
  Nat.isDigit_of_mem_toDigits (by decide) (by decide) member

theorem unsigned_literal (n : Nat) : IsLiteral (unsigned n) := by
  have whole := whole_digits (n / million)
  have rest : ∀ c ∈ fraction 6 (n % million), c.isDigit :=
    fraction_digits 6 _ (Nat.mod_lt n (by decide))
  obtain ⟨first, present⟩ := List.exists_mem_of_ne_nil _ (Nat.toDigits_ne_nil (b := 10) (n := n / million))
  have numeral : ∀ c, c.isDigit → Decimal.isNumeralChar c := fun c digit =>
    Decimal.isNumeralChar_iff.mpr (Or.inl digit)
  unfold unsigned
  by_cases none : (fraction 6 (n % million)).isEmpty
  · simp only [none, if_true]
    exact ⟨fun c member => numeral c (whole c member), ⟨first, present, whole first present⟩,
      by rw [Decimal.count_point_digits whole]; omega⟩
  · simp only [none, if_false, Bool.false_eq_true]
    refine ⟨?_, ⟨first, List.mem_append_left _ present, whole first present⟩, ?_⟩
    · intro c member
      rcases List.mem_append.mp member with left | right
      · exact numeral c (whole c left)
      · rcases List.mem_cons.mp right with rfl | right
        · decide
        · exact numeral c (rest c right)
    · rw [List.count_append, List.count_cons_self, Decimal.count_point_digits whole,
        Decimal.count_point_digits rest]

theorem ofFloat_finite {x : Float} (finite : x.isFinite) :
    ∃ word < Binary64.infinity, ofFloat x = unsigned (millionths (Binary64.grains word)) ∨
      (millionths (Binary64.grains word) ≠ 0 ∧
        ofFloat x = '-' :: unsigned (millionths (Binary64.grains word))) := by
  rcases Binary64.ofFloat_finite finite with ⟨negative, word, below, value⟩
  refine ⟨word, below, ?_⟩
  rw [ofFloat, value, ofValue]
  generalize millionths (Binary64.grains word) = n
  by_cases sign : negative && n != 0
  · have nonzero : n ≠ 0 := by
      intro zero
      simp [zero] at sign
    exact Or.inr ⟨nonzero, by simp only [sign, if_true]⟩
  · exact Or.inl (by simp only [sign, if_false, Bool.false_eq_true])

end Fixed

end Calculator
