import Mathlib.Algebra.Order.Ring.Abs
import Mathlib.Tactic.Linarith
import Mathlib.Algebra.Order.Field.Basic
import Calculator.Proofs.FloatExact
import Calculator.Proofs.TrimmedZeros

namespace Calculator.Fixed

open Binary64

/-- The number of millionths nearest to a number; from the middle between two, the even one. -/
structure NearestMillionths (v : ℚ) (k : ℤ) : Prop where
  near : |v * 10 ^ 6 - k| ≤ 1 / 2
  even : |v * 10 ^ 6 - k| = 1 / 2 → Even k

structure Numeral where
  negative : Bool
  whole : Text
  fraction : Text

namespace Numeral

def text (n : Numeral) : Text :=
  (if n.negative then ['-'] else []) ++ n.whole ++
    if n.fraction.isEmpty then [] else '.' :: n.fraction

def value (n : Numeral) : ℚ :=
  withSign n.negative (Decimal.ofDigits (n.whole ++ n.fraction) / 10 ^ n.fraction.length)

/-- No digit could be left out, and no more than six stand after the point. -/
structure Canonical (n : Numeral) : Prop where
  whole_digits : n.whole ≠ [] ∧ ∀ c ∈ n.whole, c.isDigit
  leading : n.whole.head? = some '0' → n.whole = ['0']
  fraction_digits : n.fraction.length ≤ 6 ∧ ∀ c ∈ n.fraction, c.isDigit
  trailing : n.fraction.getLast? ≠ some '0'
  signed : n.negative = true → ¬ (n.whole = ['0'] ∧ n.fraction = [])

theorem Canonical.text_ne {n : Numeral} (canonical : n.Canonical) : n.text ≠ "-0".toList := by
  obtain ⟨d, rest, whole⟩ := List.exists_cons_of_ne_nil canonical.whole_digits.1
  have digit : d.isDigit := canonical.whole_digits.2 d (whole ▸ List.mem_cons_self)
  intro same
  rw [text, whole] at same
  change _ = ['-', '0'] at same
  cases sign : n.negative with
  | false =>
      rw [sign] at same
      rw [(List.cons.inj same).1] at digit
      exact absurd digit (by decide)
  | true =>
      rw [sign] at same
      obtain ⟨zero, nothing⟩ := List.cons.inj (List.cons.inj same).2
      obtain ⟨none, tail⟩ := List.append_eq_nil_iff.mp nothing
      refine canonical.signed sign ⟨by rw [whole, zero, none], ?_⟩
      split_ifs at tail with empty
      exact List.isEmpty_iff.mp empty

end Numeral

def numeral (k : ℤ) : Numeral where
  negative := decide (k < 0)
  whole := Text.ofNat (k.natAbs / million)
  fraction := fraction 6 (k.natAbs % million)

section

variable {v : ℚ} {k l : ℤ}

theorem NearestMillionths.not_lt (first : NearestMillionths v k) (second : NearestMillionths v l) :
    ¬ k < l := by
  intro less
  have below := (abs_le.mp first.near).2
  have above := (abs_le.mp second.near).1
  have gap : (k : ℚ) + 1 ≤ l := by exact_mod_cast less
  -- both are half a unit off, so they are neighbours and both even
  have next : (l : ℚ) = k + 1 := by linarith
  have up : v * 10 ^ 6 - k = 1 / 2 := by linarith
  have down : v * 10 ^ 6 - l = -(1 / 2) := by linarith
  have even := first.even (by rw [up]; norm_num)
  have other := second.even (by rw [down]; norm_num)
  have step : l = k + 1 := by exact_mod_cast next
  rw [step] at other
  exact Int.not_even_iff_odd.mpr even.add_one other

theorem NearestMillionths.unique (first : NearestMillionths v k) (second : NearestMillionths v l) :
    k = l :=
  Int.le_antisymm (Int.not_lt.mp (second.not_lt first)) (Int.not_lt.mp (first.not_lt second))

theorem NearestMillionths.neg (nearest : NearestMillionths v k) : NearestMillionths (-v) (-k) := by
  have same : |-v * 10 ^ 6 - ((-k : ℤ) : ℚ)| = |v * 10 ^ 6 - k| := by
    rw [← abs_neg]
    congr 1
    push_cast
    ring
  constructor
  · rw [same]
    exact nearest.near
  · rw [same]
    exact fun tie => (nearest.even tie).neg

theorem NearestMillionths.withSign (nearest : NearestMillionths v k) (negative : Bool) :
    NearestMillionths (withSign negative v) (if negative then -k else k) := by
  cases negative with
  | false => exact nearest
  | true => exact nearest.neg

end

theorem roundHalfEven_nearest (num : Nat) {den : Nat} (positive : 0 < den) :
    |(num : ℚ) / den - roundHalfEven num den| ≤ 1 / 2 ∧
      (|(num : ℚ) / den - roundHalfEven num den| = 1 / 2 → Even (roundHalfEven num den)) := by
  have unit : (0 : ℚ) < den := by exact_mod_cast positive
  obtain ⟨upper, lower⟩ := roundHalfEven_near num den positive
  have even := @roundHalfEven_tie num den positive
  generalize roundHalfEven num den = r at upper lower even
  have above : 2 * ((r : ℚ) * den) ≤ 2 * num + den := by exact_mod_cast upper
  have below : 2 * (num : ℚ) ≤ 2 * (r * den) + den := by exact_mod_cast lower
  have split : (num : ℚ) / den - r = (num - r * den) / den := by field_simp
  constructor
  · rw [split, abs_le, le_div_iff₀ unit, div_le_iff₀ unit]
    constructor <;> linarith
  · intro tie
    rw [split, abs_eq (by norm_num), div_eq_iff unit.ne', div_eq_iff unit.ne'] at tie
    apply Nat.even_iff.mpr
    apply even
    rcases tie with up | down
    · left
      have whole : 2 * (num : ℚ) = 2 * (r * den) + den := by linarith
      exact_mod_cast whole
    · right
      have whole : 2 * ((r : ℚ) * den) = 2 * num + den := by linarith
      exact_mod_cast whole

theorem nearest_millionths (grains : Nat) :
    NearestMillionths (grains / one) (millionths grains : ℕ) := by
  obtain ⟨near, even⟩ := roundHalfEven_nearest (grains * million) one_pos
  have scaled : (grains : ℚ) / one * 10 ^ 6 = (grains * million : ℕ) / one := by
    rw [million_eq]
    push_cast
    ring
  constructor
  · rw [scaled]
    exact_mod_cast near
  · rw [scaled]
    intro tie
    exact (Int.even_coe_nat _).mpr (even (by exact_mod_cast tie))

theorem ofNat_leading {n : Nat} (zero : (Text.ofNat n).head? = some '0') : n = 0 := by
  induction n using Nat.strongRecOn with
  | ind n ih =>
      rw [Text.ofNat, Nat.toDigits_eq_if (by decide)] at zero
      split_ifs at zero with digit
      · exact Nat.digitChar_eq_zero.mp (Option.some.inj zero)
      · -- The first digit of a longer number is that of its tenth, which is not zero.
        have some : Nat.toDigits 10 (n / 10) ≠ [] := Nat.toDigits_ne_nil
        rw [List.head?_append_of_ne_nil _ some] at zero
        have tenth := ih (n / 10) (by omega) zero
        omega

theorem ofNat_zero_iff {n : Nat} : Text.ofNat n = ['0'] ↔ n = 0 := by
  constructor
  · intro same
    apply ofNat_leading
    rw [same]
    rfl
  · rintro rfl
    rfl

theorem fraction_trailing {count n : Nat} (below : n < 10 ^ count) :
    (fraction count n).getLast? ≠ some '0' := by
  intro zero
  rw [fraction_eq_rdropWhile below] at zero
  have nonempty : (allPlaces count n).rdropWhile (· == '0') ≠ [] := by
    intro none
    rw [none] at zero
    cases zero
  have last := (List.getLast_eq_iff_getLast?_eq_some nonempty).mpr zero
  exact List.rdropWhile_last_not _ _ nonempty (by rw [last]; rfl)

theorem numeral_canonical (k : ℤ) : (numeral k).Canonical := by
  have below : k.natAbs % million < 10 ^ 6 := Nat.mod_lt _ million_pos
  obtain ⟨missing, length, _⟩ := fraction_value 6 _ below
  refine ⟨⟨Nat.toDigits_ne_nil, whole_digits _⟩, ?_,
    ⟨Nat.le.intro length, fraction_digits 6 _ below⟩, fraction_trailing below, ?_⟩
  · intro zero
    exact ofNat_zero_iff.mpr (ofNat_leading zero)
  · intro negative zero
    have whole := ofNat_zero_iff.mp zero.1
    have rest := (fraction_eq_nil_iff below).mp zero.2
    have less : k < 0 := of_decide_eq_true negative
    have split := Nat.div_add_mod k.natAbs million
    rw [whole, rest] at split
    omega

theorem numeral_text (k : ℤ) :
    (numeral k).text = (if k < 0 then ['-'] else []) ++ unsigned k.natAbs := by
  rw [Numeral.text, numeral, unsigned, List.append_assoc]
  dsimp only
  congr 1
  · simp
  · split_ifs <;> simp

theorem numeral_value (k : ℤ) : (numeral k).value = k / 10 ^ 6 := by
  obtain ⟨d, missing, read, digits, places⟩ := unsigned_value k.natAbs
  rw [ofRun?_unsigned] at read
  obtain rfl := Option.some.inj read
  have magnitude : (Decimal.ofDigits ((numeral k).whole ++ (numeral k).fraction) : ℚ) /
      10 ^ (numeral k).fraction.length = |(k : ℚ)| / 10 ^ 6 := by
    rw [← Int.cast_abs, Int.abs_eq_natAbs, Int.cast_natCast, ← digits]
    have scale : (10 : ℚ) ^ (numeral k).fraction.length * 10 ^ missing = 10 ^ 6 := by
      exact_mod_cast places
    rw [← scale]
    push_cast
    field_simp
    rfl
  rw [Numeral.value, magnitude, withSign]
  change (if decide (k < 0) = true then _ else _) = _
  by_cases negative : k < 0
  · have below : (k : ℚ) < 0 := by exact_mod_cast negative
    rw [if_pos (decide_eq_true negative), abs_of_neg below]
    ring
  · have above : (0 : ℚ) ≤ k := by exact_mod_cast Int.not_lt.mp negative
    rw [if_neg (by simpa using negative), abs_of_nonneg above]

theorem numeral_injective {k l : ℤ} (same : (numeral k).text = (numeral l).text) : k = l := by
  have apart {n m : Nat} : '-' :: unsigned n ≠ unsigned m := by
    intro equal
    exact minus_not_mem_unsigned m (equal ▸ List.mem_cons_self)
  rw [numeral_text, numeral_text] at same
  by_cases negative : k < 0 <;> by_cases other : l < 0
  · rw [if_pos negative, if_pos other] at same
    have magnitudes := unsigned_injective (List.cons.inj same).2
    omega
  · rw [if_pos negative, if_neg other] at same
    exact absurd same apart
  · rw [if_neg negative, if_pos other] at same
    exact absurd same.symm apart
  · rw [if_neg negative, if_neg other] at same
    have magnitudes := unsigned_injective same
    omega

theorem signed_numeral (negative : Bool) (n : Nat) :
    (if negative && n != 0 then '-' :: unsigned n else unsigned n) =
      (numeral (if negative then -n else n)).text := by
  rw [numeral_text]
  cases negative with
  | false =>
      have above : ¬ (n : ℤ) < 0 := Int.not_lt.mpr (Int.natCast_nonneg n)
      simp [above]
  | true =>
      by_cases zero : n = 0
      · simp [zero]
      · have positive : 0 < n := Nat.pos_of_ne_zero zero
        simp [zero, positive]

theorem ofFloat_numeral {x : Float} (finite : x.isFinite) :
    ∃ k, NearestMillionths (exact x) k ∧ ofFloat x = (numeral k).text := by
  obtain ⟨negative, word, _, value⟩ := Binary64.ofFloat_finite finite
  have nearest := (nearest_millionths (grains word)).withSign negative
  rw [← exact_of_value finite value] at nearest
  refine ⟨_, nearest, ?_⟩
  rw [ofFloat, value]
  exact signed_numeral negative _

/-- A finite result is its value with six places, shortened: the canonical numeral of the millionths
nearest to it, in which a zero has no sign. It is the result of those values that are rounded to the
same number of millionths, and of no other. -/
theorem ofFloat_canonical {x : Float} (finite : x.isFinite) :
    ofFloat x = shortened (sixPlaces (.ofFloat x)) ∧
      (∃ n : Numeral, n.Canonical ∧ ofFloat x = n.text ∧
        ∃ k : ℤ, NearestMillionths (exact x) k ∧ n.value = k / 10 ^ 6) ∧
      ofFloat x ≠ "-0".toList ∧
      ∀ y : Float, y.isFinite → (ofFloat x = ofFloat y ↔
        ∃ k : ℤ, NearestMillionths (exact x) k ∧ NearestMillionths (exact y) k) := by
  obtain ⟨k, nearest, text⟩ := ofFloat_numeral finite
  refine ⟨ofValue_eq_shortened _, ?_, ?_, ?_⟩
  · exact ⟨numeral k, numeral_canonical k, text, k, nearest, numeral_value k⟩
  · rw [text]
    exact (numeral_canonical k).text_ne
  · intro y other
    obtain ⟨l, near, written⟩ := ofFloat_numeral other
    rw [text, written]
    constructor
    · intro same
      exact ⟨k, nearest, numeral_injective same ▸ near⟩
    · rintro ⟨m, first, second⟩
      rw [nearest.unique first, near.unique second]

theorem ofFloat_tie :
    let tie := Float.ofBits 0xBF80000000000000
    let before := Float.ofBits 0xBF7FFFFFFFFFFFFF
    let next := Float.ofBits 0xBF80000000000001
    tie.isFinite ∧ before.isFinite ∧ next.isFinite ∧ ofFloat tie = "-0.007812".toList ∧
      (∃ k : ℤ, NearestMillionths (exact tie) k ∧ NearestMillionths (exact before) k) ∧
      ¬ ∃ k : ℤ, NearestMillionths (exact tie) k ∧ NearestMillionths (exact next) k := by
  intro tie before next
  have finite : tie.isFinite := by decide +kernel
  have finite' : before.isFinite := by decide +kernel
  have finite'' : next.isFinite := by decide +kernel
  have text : ofFloat tie = "-0.007812".toList := by decide +kernel
  have same : ofFloat tie = ofFloat before := by decide +kernel
  have other : ofFloat tie ≠ ofFloat next := by decide +kernel
  obtain ⟨_, _, _, apart⟩ := ofFloat_canonical finite
  exact ⟨finite, finite', finite'', text, (apart before finite').mp same,
    mt (apart next finite'').mpr other⟩

end Calculator.Fixed
