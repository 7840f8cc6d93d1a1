import Mathlib.Tactic.Ring
import Calculator.Number.Binary64

/-! Rounding to whole numbers and to magnitudes.

Rounding is off by half a unit at most, and what is nearer than that to a whole number is rounded to
it. The nearest magnitude to a quotient is found in the binade of the quotient, where it is a
multiple of a power of two; a carry out of the binade gives the first magnitude of the next one. -/

namespace Calculator.Binary64

section

variable {num den n : Nat}

theorem roundHalfEven_cases (num den : Nat) (positive : 0 < den) : ∃ quotient rest,
    num = quotient * den + rest ∧ rest < den ∧
      (2 * rest < den ∧ roundHalfEven num den = quotient ∨
        den < 2 * rest ∧ roundHalfEven num den = quotient + 1 ∨
        2 * rest = den ∧ roundHalfEven num den = quotient + quotient % 2) := by
  refine ⟨num / den, num % den, (Nat.div_add_mod' num den).symm, Nat.mod_lt num positive, ?_⟩
  unfold roundHalfEven
  dsimp only
  split
  case isTrue less => exact Or.inl ⟨less, rfl⟩
  case isFalse notLess =>
    split
    case isTrue more => exact Or.inr (Or.inl ⟨more, rfl⟩)
    case isFalse notMore => exact Or.inr (Or.inr ⟨by omega, rfl⟩)

theorem roundHalfEven_near (num den : Nat) (positive : 0 < den) :
    2 * (roundHalfEven num den * den) ≤ 2 * num + den ∧
      2 * num ≤ 2 * (roundHalfEven num den * den) + den := by
  obtain ⟨quotient, rest, split, bound, cases⟩ := roundHalfEven_cases num den positive
  have up : (quotient + 1) * den = quotient * den + den := Nat.succ_mul quotient den
  rcases cases with ⟨less, down⟩ | ⟨more, next⟩ | ⟨middle, even⟩
  · rw [down]
    omega
  · rw [next]
    omega
  · rcases Nat.mod_two_eq_zero_or_one quotient with same | odd
    · rw [even, same, Nat.add_zero]
      omega
    · rw [even, odd]
      omega

theorem roundHalfEven_tie (positive : 0 < den)
    (tie : 2 * num = 2 * (roundHalfEven num den * den) + den ∨
      2 * (roundHalfEven num den * den) = 2 * num + den) : roundHalfEven num den % 2 = 0 := by
  obtain ⟨quotient, rest, split, bound, cases⟩ := roundHalfEven_cases num den positive
  have up : (quotient + 1) * den = quotient * den + den := Nat.succ_mul quotient den
  rcases cases with ⟨less, down⟩ | ⟨more, next⟩ | ⟨middle, even⟩
  · rw [down] at tie
    omega
  · rw [next] at tie
    omega
  · omega

theorem roundHalfEven_le (positive : 0 < den) (below : num ≤ n * den) :
    roundHalfEven num den ≤ n := by
  have near := (roundHalfEven_near num den positive).1
  have bound : roundHalfEven num den * den < (n + 1) * den := by
    rw [Nat.add_mul]
    omega
  exact Nat.le_of_lt_succ (Nat.lt_of_mul_lt_mul_right bound)

theorem le_roundHalfEven (positive : 0 < den) (above : n * den ≤ num) :
    n ≤ roundHalfEven num den := by
  have near := (roundHalfEven_near num den positive).2
  have bound : n * den < (roundHalfEven num den + 1) * den := by
    rw [Nat.add_mul]
    omega
  exact Nat.le_of_lt_succ (Nat.lt_of_mul_lt_mul_right bound)

theorem roundHalfEven_eq (above : 2 * num < 2 * (n * den) + den)
    (below : 2 * (n * den) < 2 * num + den) : roundHalfEven num den = n := by
  have positive : 0 < den := by omega
  have near := roundHalfEven_near num den positive
  have notLess : n * den < (roundHalfEven num den + 1) * den := by
    rw [Nat.add_mul]
    omega
  have notMore : roundHalfEven num den * den < (n + 1) * den := by
    rw [Nat.add_mul]
    omega
  have upper := Nat.lt_of_mul_lt_mul_right notLess
  have lower := Nat.lt_of_mul_lt_mul_right notMore
  omega

theorem roundHalfEven_exact (n : Nat) (positive : 0 < den) : roundHalfEven (n * den) den = n :=
  roundHalfEven_eq (by omega) (by omega)

theorem roundHalfEven_cancel (num den : Nat) {k : Nat} (positive : 0 < k) :
    roundHalfEven (num * k) (den * k) = roundHalfEven num den := by
  have less : ∀ a b : Nat, 2 * (a * k) < b * k ↔ 2 * a < b := by
    intro a b
    rw [← Nat.mul_assoc]
    exact Nat.mul_lt_mul_right positive
  have more : ∀ a b : Nat, a * k < 2 * (b * k) ↔ a < 2 * b := by
    intro a b
    rw [← Nat.mul_assoc]
    exact Nat.mul_lt_mul_right positive
  simp only [roundHalfEven, Nat.mul_div_mul_right num den positive, Nat.mul_mod_mul_right, less, more]

end

/-- The quotient `num / den` of whole numbers of grains lies in the binade whose magnitudes are
multiples of `2 ^ shift`. The least one reaches down to zero. -/
structure InBinade (num den shift : Nat) : Prop where
  below : num < den * 2 ^ (shift + 53)
  above : 0 < shift → den * 2 ^ (shift + 52) ≤ num

theorem InBinade.unique {num den first second : Nat} (inFirst : InBinade num den first)
    (inSecond : InBinade num den second) : first = second := by
  have le {low high : Nat} (inLow : InBinade num den low) (inHigh : InBinade num den high) :
      high ≤ low := by
    rcases Nat.eq_zero_or_pos high with zero | positive
    · omega
    · have between : den * 2 ^ (high + 52) < den * 2 ^ (low + 53) :=
        Nat.lt_of_le_of_lt (inHigh.above positive) inLow.below
      have powers := Nat.lt_of_mul_lt_mul_left between
      have exponents := (Nat.pow_lt_pow_iff_right (by decide)).mp powers
      omega
  exact Nat.le_antisymm (le inSecond inFirst) (le inFirst inSecond)

theorem inBinade_log2 (num : Nat) {den : Nat} (positive : 0 < den) :
    InBinade num den (Nat.log2 (num / den) - 52) where
  below := by
    have bound : num / den < 2 ^ (Nat.log2 (num / den) - 52 + 53) :=
      Nat.lt_of_lt_of_le Nat.lt_log2_self (Nat.pow_le_pow_right (by decide) (by omega))
    have whole := (Nat.div_lt_iff_lt_mul positive).mp bound
    rwa [Nat.mul_comm] at whole
  above := by
    intro shifted
    have nonzero : num / den ≠ 0 := by
      intro zero
      rw [zero] at shifted
      exact absurd shifted (by decide)
    have bound : 2 ^ (Nat.log2 (num / den) - 52 + 52) ≤ num / den := by
      rw [Nat.sub_add_cancel (by omega)]
      exact Nat.log2_self_le nonzero
    have whole := (Nat.le_div_iff_mul_le positive).mp bound
    rwa [Nat.mul_comm] at whole

/-- The parts of a magnitude: its significand and the power of two that multiplies it. Only with the
least power is the significand less than a binade. -/
structure Parts (significand shift : Nat) : Prop where
  le : significand ≤ 2 * binade
  normal : 0 < shift → binade ≤ significand

theorem InBinade.parts {num den shift : Nat} (positive : 0 < den) (inside : InBinade num den shift) :
    Parts (roundHalfEven num (den * 2 ^ shift)) shift := by
  have unit : 0 < den * 2 ^ shift := Nat.mul_pos positive (Nat.two_pow_pos shift)
  have scale (k : Nat) : 2 ^ k * (den * 2 ^ shift) = den * 2 ^ (shift + k) := by
    rw [Nat.pow_add]
    ring
  constructor
  · change _ ≤ 2 ^ 53
    apply roundHalfEven_le unit
    rw [scale]
    exact Nat.le_of_lt inside.below
  · intro shifted
    change 2 ^ 52 ≤ _
    apply le_roundHalfEven unit
    rw [scale]
    exact inside.above shifted

theorem grains_parts {significand shift : Nat} (parts : Parts significand shift) :
    grains (significand + shift * binade) = significand * 2 ^ shift := by
  have le := parts.le
  have normal := parts.normal
  have field : (significand + shift * binade) / binade = significand / binade + shift :=
    Nat.add_mul_div_right _ _ (by decide)
  have unfolded : grains (significand + shift * binade) =
      (significand + shift * binade - (significand / binade + shift - 1) * binade) *
        2 ^ (significand / binade + shift - 1) := by
    rw [← field]
    rfl
  rw [unfolded]
  rcases Nat.lt_or_ge significand binade with subnormal | large
  · have least : shift = 0 := by
      by_contra shifted
      have := normal (by omega)
      omega
    rw [Nat.div_eq_of_lt subnormal, least]
    simp
  · rcases Nat.lt_or_eq_of_le le with inside | carry
    · have one : significand / binade = 1 := Nat.div_eq_of_lt_le (by omega) (by omega)
      rw [one, Nat.add_sub_cancel_left, Nat.add_sub_cancel]
    · have two : significand / binade = 2 := by
        rw [carry]
        exact Nat.mul_div_cancel _ (by decide)
      have next : 2 + shift - 1 = shift + 1 := by omega
      rw [two, next, carry, Nat.pow_succ]
      have rest : 2 * binade + shift * binade - (shift + 1) * binade = binade := by
        rw [Nat.add_mul]
        omega
      rw [rest]
      ring

theorem exists_parts (word : Nat) : ∃ significand shift, Parts significand shift ∧
    significand < 2 * binade ∧ word = significand + shift * binade := by
  have split : binade * (word / binade) + word % binade = word := Nat.div_add_mod word binade
  have rest : word % binade < binade := Nat.mod_lt word (by decide)
  -- with exponent field zero the significand has no leading one
  rcases Nat.eq_zero_or_pos (word / binade) with zero | positive
  · have least : word < binade := by
      rw [zero] at split
      omega
    exact ⟨word, 0, ⟨by omega, fun shifted => absurd shifted (by decide)⟩, by omega, by omega⟩
  · obtain ⟨shift, field⟩ : ∃ shift, word / binade = shift + 1 := ⟨word / binade - 1, by omega⟩
    have whole : binade + word % binade + shift * binade = word := by
      rw [field, Nat.mul_comm, Nat.add_mul] at split
      omega
    exact ⟨binade + word % binade, shift, ⟨by omega, fun _ => by omega⟩, by omega, whole.symm⟩

theorem nearest_of_inBinade {num den shift : Nat} (positive : 0 < den)
    (inside : InBinade (num * one) den shift) :
    nearest num den =
      min (roundHalfEven (num * one) (den * 2 ^ shift) + shift * binade) infinity := by
  have same := (inBinade_log2 (num * one) positive).unique inside
  rw [← same]
  rfl

theorem nearest_cancel (num den : Nat) {k : Nat} (positive : 0 < k) :
    nearest (num * k) (den * k) = nearest num den := by
  have inner : num * k * one = num * one * k := Nat.mul_right_comm num k one
  have outer (unit : Nat) : den * k * unit = den * unit * k := Nat.mul_right_comm den k unit
  simp only [nearest, inner, outer, Nat.mul_div_mul_right _ den positive,
    roundHalfEven_cancel _ _ positive]

end Calculator.Binary64
