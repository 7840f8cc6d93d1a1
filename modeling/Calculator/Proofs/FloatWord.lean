import Calculator.Proofs.FloatFinite
import Calculator.Proofs.ResultText

namespace Calculator.Binary64

open Float.Model (Format UnpackedFloat)

theorem packComponents_unpack (bits : BitVec Format.binary64.numBits) :
    UnpackedFloat.packComponents Format.binary64 (.ofBitVec (UnpackedFloat.unpackSign bits))
      (UnpackedFloat.unpackExponent bits) (UnpackedFloat.unpackMantissa bits) = bits := by
  have sign : ∀ bit : BitVec 1, (UnpackedFloat.Sign.ofBitVec bit).toBitVec = bit := by decide
  rw [UnpackedFloat.packComponents, sign]
  change (bits.extractLsb' 63 1 ++ bits.extractLsb' 52 11) ++ bits.extractLsb' 0 52 = bits
  rw [BitVec.extractLsb'_append_extractLsb'_eq_extractLsb' (by decide),
    BitVec.extractLsb'_append_extractLsb'_eq_extractLsb' (by decide)]
  exact BitVec.extractLsb'_eq_self

theorem unpack_finite {bits : BitVec Format.binary64.numBits}
    (finite : UnpackedFloat.unpackExponent bits ≠ -1#_) :
    (UnpackedFloat.unpackExponent bits = 0#_ ∧ UnpackedFloat.unpackMantissa bits = 0#_ ∧
        UnpackedFloat.unpack Format.binary64 bits =
          .zero (.ofBitVec (UnpackedFloat.unpackSign bits))) ∨
      (UnpackedFloat.unpackExponent bits = 0#_ ∧ ∃ exponent positive, exponent = -1074 ∧
        UnpackedFloat.unpack Format.binary64 bits = .finite (.ofBitVec (UnpackedFloat.unpackSign bits))
          (UnpackedFloat.unpackMantissa bits).toNat exponent positive) ∨
      (UnpackedFloat.unpackExponent bits ≠ 0#_ ∧ ∃ positive,
        UnpackedFloat.unpack Format.binary64 bits =
          .finite (.ofBitVec (UnpackedFloat.unpackSign bits))
            (1#1 ++ UnpackedFloat.unpackMantissa bits).toNat
            ((UnpackedFloat.unpackExponent bits).toNat - (1023 + 52)) positive) := by
  by_cases least : UnpackedFloat.unpackExponent bits = 0#_
  · by_cases zero : UnpackedFloat.unpackMantissa bits = 0#_
    · exact Or.inl ⟨least, zero, (if_neg finite).trans ((if_pos least).trans (dif_pos zero))⟩
    · refine Or.inr (Or.inl ⟨least, _, _, ?_,
        (if_neg finite).trans ((if_pos least).trans (dif_neg zero))⟩)
      rw [least]
      rfl
  · exact Or.inr (Or.inr ⟨least, _, (if_neg finite).trans (if_neg least)⟩)

theorem pack_finite (sign : UnpackedFloat.Sign) (mantissa : Nat) (exponent : Int)
    (positive : 0 < mantissa) :
    UnpackedFloat.pack Format.binary64 (.finite sign mantissa exponent positive) =
      if 2 ^ 11 ≤ (exponent + 1023 + 52).toNat + 1 then
        UnpackedFloat.packedInfinity Format.binary64 sign
      else if mantissa.log2 + 1 = 53 then
        UnpackedFloat.packComponents Format.binary64 sign
          (BitVec.ofNat 11 (exponent + 1023 + 52).toNat) (BitVec.ofNat 52 mantissa)
      else UnpackedFloat.packComponents Format.binary64 sign 0#11 (BitVec.ofNat 52 mantissa) :=
  rfl

section

variable (sign : UnpackedFloat.Sign) (mantissa : BitVec 52)

theorem toNat_append_one : (1#1 ++ mantissa).toNat = 2 ^ 52 + mantissa.toNat := by
  rw [BitVec.toNat_append, ← Nat.shiftLeft_add_eq_or_of_lt mantissa.isLt]
  rfl

theorem log2_append_one : (1#1 ++ mantissa).toNat.log2 = 52 := by
  have below := mantissa.isLt
  rw [toNat_append_one]
  exact (Nat.log2_eq_iff (by omega)).mpr ⟨by omega, by omega⟩

theorem pack_subnormal {exponent : Int} (least : exponent = -1074) (positive : 0 < mantissa.toNat) :
    UnpackedFloat.pack Format.binary64 (.finite sign mantissa.toNat exponent positive) =
      UnpackedFloat.packComponents Format.binary64 sign 0#11 mantissa := by
  subst least
  have short : mantissa.toNat.log2 + 1 ≠ 53 := by
    intro full
    have leading := Nat.log2_self_le (Nat.ne_of_gt positive)
    rw [show mantissa.toNat.log2 = 52 by omega] at leading
    exact absurd mantissa.isLt (Nat.not_lt.mpr leading)
  rw [pack_finite, if_neg (by decide), if_neg short, BitVec.ofNat_toNat, BitVec.setWidth_eq]

theorem pack_normal {exponent : BitVec 11} (finite : exponent ≠ -1#11)
    (positive : 0 < (1#1 ++ mantissa).toNat) :
    UnpackedFloat.pack Format.binary64
        (.finite sign (1#1 ++ mantissa).toNat (exponent.toNat - (1023 + 52)) positive) =
      UnpackedFloat.packComponents Format.binary64 sign exponent mantissa := by
  have below : exponent.toNat < 2047 := by
    have bound := exponent.isLt
    have last : exponent.toNat ≠ 2047 := fun full => finite (BitVec.eq_of_toNat_eq full)
    omega
  have biased : ((exponent.toNat : Int) - (1023 + 52) + 1023 + 52).toNat = exponent.toNat := by
    omega
  have leading : BitVec.ofNat 52 (1#1 ++ mantissa).toNat = mantissa := by
    apply BitVec.eq_of_toNat_eq
    have bound := mantissa.isLt
    rw [BitVec.toNat_ofNat, toNat_append_one]
    omega
  rw [pack_finite, biased, if_neg (by omega), log2_append_one, if_pos rfl, leading,
    BitVec.ofNat_toNat, BitVec.setWidth_eq]

end

/-- Packing undoes unpacking, but for the payload of what is not a number. -/
theorem pack_unpack {bits : BitVec Format.binary64.numBits}
    (finite : UnpackedFloat.unpackExponent bits ≠ -1#_) :
    UnpackedFloat.pack Format.binary64 (UnpackedFloat.unpack Format.binary64 bits) = bits := by
  have fields := packComponents_unpack bits
  rcases unpack_finite finite with ⟨least, zero, unpacked⟩ |
    ⟨least, exponent, positive, lowest, unpacked⟩ | ⟨_, positive, unpacked⟩
  · rw [least, zero] at fields
    rw [unpacked]
    exact fields
  · rw [least] at fields
    rw [unpacked]
    exact (pack_subnormal _ _ lowest _).trans fields
  · rw [unpacked]
    exact (pack_normal _ _ finite _).trans fields

section

variable {word : Nat}

theorem toNat_ofNat_of_finite (finite : word < infinity) : (UInt64.ofNat word).toNat = word := by
  have bound : infinity < 2 ^ 64 := by decide
  rw [UInt64.toNat_ofNat']
  exact Nat.mod_eq_of_lt (Nat.lt_trans finite bound)

theorem unpackExponent_of_finite (finite : word < infinity) :
    @UnpackedFloat.unpackExponent Format.binary64 (UInt64.ofNat word).toBitVec ≠ -1#_ := by
  intro full
  have field := exponent_toNat (UInt64.ofNat word).toBitVec
  rw [full, UInt64.toNat_toBitVec, toNat_ofNat_of_finite finite] at field
  change 2047 = _ at field
  change word < 2047 * 2 ^ 52 at finite
  omega

theorem toBits_ofMagnitude (finite : word < infinity) : (ofMagnitude word).toBits.toNat = word := by
  have same : (ofMagnitude word).toBits.toBitVec = (UInt64.ofNat word).toBitVec :=
    pack_unpack (unpackExponent_of_finite finite)
  rw [← UInt64.toNat_toBitVec, same, UInt64.toNat_toBitVec, toNat_ofNat_of_finite finite]

theorem isFinite_ofMagnitude (finite : word < infinity) : (ofMagnitude word).isFinite := by
  have same := pack_unpack (unpackExponent_of_finite finite)
  change (UnpackedFloat.unpack Format.binary64 (UnpackedFloat.pack Format.binary64
    (UnpackedFloat.unpack Format.binary64 (UInt64.ofNat word).toBitVec))).isFinite
  rw [same]
  rcases unpack_finite (unpackExponent_of_finite finite) with ⟨_, _, unpacked⟩ |
    ⟨_, _, _, _, unpacked⟩ | ⟨_, _, unpacked⟩ <;>
  · rw [unpacked]
    rfl

theorem ofFloat_ofMagnitude (finite : word < infinity) :
    Value.ofFloat (ofMagnitude word) = .finite false (grains word) := by
  have low : word < signBit := Nat.lt_trans finite (by decide)
  rw [Value.ofFloat, toBits_ofMagnitude finite, Value.ofWord]
  simp only [Nat.mod_eq_of_lt low, decide_eq_false (Nat.not_le.mpr low),
    if_neg (Nat.not_lt.mpr (Nat.le_of_lt finite)), if_neg (Nat.ne_of_lt finite)]

end

end Calculator.Binary64
