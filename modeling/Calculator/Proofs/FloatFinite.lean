import Calculator.FloatArithmetic

namespace Calculator

open Float.Model (Format UnpackedFloat)

namespace Binary64

theorem not_finite_of_exponent {bits : BitVec Format.binary64.numBits}
    (field : UnpackedFloat.unpackExponent bits = -1#_) :
    ¬ (UnpackedFloat.unpack Format.binary64 bits).isFinite := by
  unfold UnpackedFloat.unpack
  dsimp only
  rw [if_pos field]
  split <;> exact Bool.false_ne_true

theorem finite_of_pack {u : UnpackedFloat} (finite : (Float.Model.pack u).isFinite) :
    u.isFinite := by
  cases u with
  | notANumber =>
      exact absurd finite (not_finite_of_exponent UnpackedFloat.unpackExponent_packComponents)
  | infinity sign =>
      exact absurd finite (not_finite_of_exponent UnpackedFloat.unpackExponent_packComponents)
  | zero sign => rfl
  | finite sign mantissa exponent positive => rfl

section

variable {format : Format} {a b : UnpackedFloat}

theorem finite_of_add (finite : (UnpackedFloat.add format a b).isFinite) :
    a.isFinite ∧ b.isFinite := by
  cases a <;> cases b <;> first | exact ⟨rfl, rfl⟩ | cases finite | skip
  case infinity.infinity sign other =>
    change (if sign == other then UnpackedFloat.infinity sign else .notANumber).isFinite at finite
    split at finite <;> cases finite

theorem finite_of_sub (finite : (UnpackedFloat.sub format a b).isFinite) :
    a.isFinite ∧ b.isFinite := by
  cases a <;> cases b <;> first | exact ⟨rfl, rfl⟩ | cases finite | skip
  case infinity.infinity sign other =>
    change (if sign == -other then UnpackedFloat.infinity sign else .notANumber).isFinite at finite
    split at finite <;> cases finite

theorem finite_of_mul (finite : (UnpackedFloat.mul format a b).isFinite) :
    a.isFinite ∧ b.isFinite := by
  cases a <;> cases b <;> first | exact ⟨rfl, rfl⟩ | cases finite

theorem finite_of_div (finite : (UnpackedFloat.div format a b).isFinite) : a.isFinite := by
  cases a <;> cases b <;> first | rfl | cases finite

end

end Binary64

section

variable {left right : Float}

theorem applyFloat_zero_divisor (zero : right == 0) :
    ¬ (applyFloat .div left right).isFinite := by
  rw [applyFloat, if_pos zero]
  decide +kernel

/-- Only a power can be finite though its left operand is not. -/
theorem left_finite_of_applyFloat {op : Operator} (looser : op.precedence ≤ 2)
    (finite : (applyFloat op left right).isFinite) : left.isFinite := by
  cases op with
  | add => exact (Binary64.finite_of_add (Binary64.finite_of_pack finite)).1
  | sub => exact (Binary64.finite_of_sub (Binary64.finite_of_pack finite)).1
  | mul => exact (Binary64.finite_of_mul (Binary64.finite_of_pack finite)).1
  | div =>
      by_cases zero : right == 0
      · exact absurd finite (applyFloat_zero_divisor zero)
      · rw [applyFloat, if_neg zero] at finite
        exact Binary64.finite_of_div (Binary64.finite_of_pack finite)
  | pow => exact absurd looser (by decide)

theorem right_finite_of_applyFloat {op : Operator} (looser : op.precedence ≤ 1)
    (finite : (applyFloat op left right).isFinite) : right.isFinite := by
  cases op with
  | add => exact (Binary64.finite_of_add (Binary64.finite_of_pack finite)).2
  | sub => exact (Binary64.finite_of_sub (Binary64.finite_of_pack finite)).2
  | mul | div | pow => exact absurd looser (by decide)

end

end Calculator
