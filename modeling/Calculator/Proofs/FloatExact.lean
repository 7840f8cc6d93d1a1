import Mathlib.Algebra.Order.Field.Rat
import Mathlib.Tactic.FieldSimp
import Calculator.Proofs.FloatWord
import Calculator.Proofs.Reread

namespace Calculator.Binary64

open Float.Model (Format UnpackedFloat)

def rational : UnpackedFloat → ℚ
  | .finite .positive mantissa exponent _ => mantissa * 2 ^ exponent
  | .finite .negative mantissa exponent _ => -(mantissa * 2 ^ exponent)
  | _ => 0

def exact (x : Float) : ℚ := rational x.toModel.unpack

def withSign (negative : Bool) (v : ℚ) : ℚ := if negative then -v else v

theorem withSign_zero (negative : Bool) : withSign negative 0 = 0 := by
  cases negative with
  | false => rfl
  | true => exact neg_zero

theorem grains_fields {mantissa : Nat} (below : mantissa < binade) (field : Nat) :
    grains (field * binade + mantissa) =
      if field = 0 then mantissa else (binade + mantissa) * 2 ^ (field - 1) := by
  cases field with
  | zero =>
      have parts : Parts mantissa 0 := ⟨by omega, fun shifted => absurd shifted (by decide)⟩
      have least := grains_parts parts
      simpa [Nat.add_comm] using least
  | succ shift =>
      have parts : Parts (binade + mantissa) shift := ⟨by omega, fun _ => Nat.le_add_right _ _⟩
      have word : (shift + 1) * binade + mantissa = binade + mantissa + shift * binade := by
        rw [Nat.add_mul]
        omega
      rw [word, grains_parts parts]
      simp

section

variable (bits : BitVec 64)

theorem mantissa_toNat :
    (@UnpackedFloat.unpackMantissa Format.binary64 bits).toNat = bits.toNat % 2 ^ 52 := by
  simp only [UnpackedFloat.unpackMantissa, BitVec.toNat_cast]
  rw [BitVec.extractLsb_toNat]
  rfl

theorem sign_toNat :
    (@UnpackedFloat.unpackSign Format.binary64 bits).toNat = bits.toNat / 2 ^ 63 % 2 := by
  change (bits.extractLsb 63 63).toNat = _
  rw [BitVec.extractLsb_toNat, Nat.shiftRight_eq_div_pow]

theorem rational_finite (mantissa : Nat) (exponent : Int) (positive : 0 < mantissa) :
    rational (.finite (.ofBitVec (@UnpackedFloat.unpackSign Format.binary64 bits)) mantissa exponent
      positive) = withSign (decide (signBit ≤ bits.toNat)) (mantissa * 2 ^ exponent) := by
  have field := sign_toNat bits
  have bound := bits.isLt
  rw [withSign, UnpackedFloat.Sign.ofBitVec]
  by_cases high : signBit ≤ bits.toNat
  · have set : @UnpackedFloat.unpackSign Format.binary64 bits ≠ 0#1 := by
      intro clear
      rw [clear] at field
      change 2 ^ 63 ≤ _ at high
      change 0 = _ at field
      omega
    rw [if_neg set, decide_eq_true high, if_pos rfl]
    rfl
  · have clear : @UnpackedFloat.unpackSign Format.binary64 bits = 0#1 := by
      apply BitVec.eq_of_toNat_eq
      rw [field]
      change ¬ 2 ^ 63 ≤ _ at high
      change _ = 0
      omega
    rw [if_pos clear, decide_eq_false high, if_neg Bool.false_ne_true]
    rfl

theorem fields_toNat : bits.toNat % signBit =
    (@UnpackedFloat.unpackExponent Format.binary64 bits).toNat * binade +
      (@UnpackedFloat.unpackMantissa Format.binary64 bits).toNat := by
  rw [exponent_toNat, mantissa_toNat]
  change bits.toNat % 2 ^ 63 = bits.toNat / 2 ^ 52 % 2 ^ 11 * 2 ^ 52 + bits.toNat % 2 ^ 52
  omega

end

theorem scaled_div_one (k shift : Nat) :
    ((k * 2 ^ shift : Nat) : ℚ) / one = k * 2 ^ ((shift : Int) - 1074) := by
  obtain ⟨depth, same⟩ : ∃ depth : Nat, 1074 = depth := ⟨_, rfl⟩
  have units : (one : ℚ) = 2 ^ depth := by
    rw [Fixed.one_eq_two_pow same]
    push_cast
    rfl
  have exponent : (1074 : Int) = depth := by exact_mod_cast same
  rw [units, exponent, zpow_sub₀ two_ne_zero, zpow_natCast, zpow_natCast]
  push_cast
  ring

theorem rational_unpack {bits : BitVec 64}
    (finite : @UnpackedFloat.unpackExponent Format.binary64 bits ≠ -1#_) :
    rational (UnpackedFloat.unpack Format.binary64 bits) =
      withSign (decide (signBit ≤ bits.toNat)) (grains (bits.toNat % signBit) / one) := by
  have below : (@UnpackedFloat.unpackMantissa Format.binary64 bits).toNat < binade := BitVec.isLt _
  rw [fields_toNat, grains_fields below]
  rcases unpack_finite finite with ⟨least, zero, unpacked⟩ |
    ⟨least, exponent, positive, lowest, unpacked⟩ | ⟨normal, positive, unpacked⟩
  · rw [unpacked, least, zero]
    change 0 = withSign _ (((0 : Nat) : ℚ) / one)
    rw [Nat.cast_zero, zero_div, withSign_zero]
  · rw [unpacked, rational_finite, least, lowest]
    have scaled := scaled_div_one (@UnpackedFloat.unpackMantissa Format.binary64 bits).toNat 0
    rw [Nat.pow_zero, Nat.mul_one] at scaled
    change _ = withSign _ (((@UnpackedFloat.unpackMantissa Format.binary64 bits).toNat : ℚ) / one)
    rw [scaled]
    norm_num
  · have shifted : (@UnpackedFloat.unpackExponent Format.binary64 bits).toNat ≠ 0 := by
      intro zero
      exact normal (BitVec.eq_of_toNat_eq zero)
    rw [unpacked, rational_finite, if_neg shifted, scaled_div_one, toNat_append_one]
    have exponent : (((@UnpackedFloat.unpackExponent Format.binary64 bits).toNat - 1 : Nat) : Int)
        - 1074 = (@UnpackedFloat.unpackExponent Format.binary64 bits).toNat - (1023 + 52) := by
      omega
    rw [exponent]
    rfl

theorem exact_of_value {x : Float} (finite : x.isFinite) {negative : Bool} {count : Nat}
    (value : Value.ofFloat x = .finite negative count) :
    exact x = withSign negative (count / one) := by
  have field : @UnpackedFloat.unpackExponent Format.binary64 x.toBits.toBitVec ≠ -1#_ := by
    intro full
    exact not_finite_of_exponent full finite
  have unpacked := rational_unpack field
  rw [Value.ofFloat, Value.ofWord] at value
  split_ifs at value
  cases value
  exact unpacked

end Calculator.Binary64
