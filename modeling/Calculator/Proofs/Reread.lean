import Mathlib.Tactic.Ring
import Calculator.Number.Fixed
import Calculator.Proofs.Rounding

/-! Six places read back to six places.

The magnitude nearest to a number of millionths prints as that number again. Below 2^33 magnitudes
are so close to each other that the nearest one is off by less than half a millionth. From there on
they are more than a millionth apart, so a number of millionths that comes from rounding a magnitude
is nearest to that very magnitude. -/

namespace Calculator.Fixed

open Binary64

theorem one_eq_two_pow {exponent : Nat} (same : 1074 = exponent) : one = 2 ^ exponent := by
  unfold one
  rw [same]
  rfl

theorem one_pos : 0 < one := by
  obtain ⟨exponent, same⟩ : ∃ exponent, 1074 = exponent := ⟨_, rfl⟩
  rw [one_eq_two_pow same]
  exact Nat.two_pow_pos exponent

theorem one_eq {low high : Nat} (split : 1074 = low + high) : one = 2 ^ low * 2 ^ high := by
  rw [one_eq_two_pow split]
  exact Nat.pow_add 2 low high

theorem two_pow_eq (rest : Nat) : 2 ^ (1074 + rest) = one * 2 ^ rest := by
  obtain ⟨exponent, same⟩ : ∃ exponent, 1074 = exponent := ⟨_, rfl⟩
  rw [one_eq_two_pow same, same]
  exact Nat.pow_add 2 exponent rest

theorem million_eq : million = 1000000 := rfl

theorem million_pos : 0 < million := by decide

theorem millionths_nearest_of_fine {n shift : Nat} (inside : InBinade (n * one) million shift)
    (fine : shift ≤ 1054) :
    nearest n million < infinity ∧ millionths (grains (nearest n million)) = n := by
  have parts := inside.parts million_pos
  have near := roundHalfEven_near (n * one) (million * 2 ^ shift)
    (Nat.mul_pos million_pos (Nat.two_pow_pos shift))
  rw [nearest_of_inBinade million_pos inside]
  generalize roundHalfEven (n * one) (million * 2 ^ shift) = significand at parts near ⊢
  have finite : significand + shift * binade < infinity := by
    calc
      significand + shift * binade ≤ 2 * binade + 1054 * binade :=
        Nat.add_le_add parts.le (Nat.mul_le_mul_right binade fine)
      _ < infinity := by decide
  have unit : million * 2 ^ shift < one := by
    have split : 1074 = 20 + shift + (1054 - shift) := by omega
    calc
      million * 2 ^ shift < 2 ^ 20 * 2 ^ shift :=
        Nat.mul_lt_mul_of_pos_right (by decide) (Nat.two_pow_pos shift)
      _ = 2 ^ (20 + shift) := (Nat.pow_add 2 20 shift).symm
      _ ≤ 2 ^ (20 + shift) * 2 ^ (1054 - shift) := Nat.le_mul_of_pos_right _ (Nat.two_pow_pos _)
      _ = one := (one_eq split).symm
  rw [Nat.min_eq_left (Nat.le_of_lt finite)]
  refine ⟨finite, ?_⟩
  rw [grains_parts parts, millionths]
  have scaled : significand * 2 ^ shift * million = significand * (million * 2 ^ shift) := by ring
  rw [scaled]
  apply roundHalfEven_eq <;> omega

theorem millionths_whole (k : Nat) : millionths (k * one) = k * million := by
  have swap : k * one * million = k * million * one := Nat.mul_right_comm k one million
  rw [millionths, swap]
  exact roundHalfEven_exact _ one_pos

theorem millionths_near (grains : Nat) :
    2 * (millionths grains * one) ≤ 2 * (grains * million) + one ∧
      2 * (grains * million) ≤ 2 * (millionths grains * one) + one :=
  roundHalfEven_near (grains * million) one one_pos

section

variable {significand shift : Nat}

theorem one_le_of_coarse (coarse : 1055 ≤ shift) : one ≤ 2 ^ 19 * 2 ^ shift := by
  have split : 19 + shift = 1074 + (shift - 1055) := by omega
  calc
    one ≤ one * 2 ^ (shift - 1055) := Nat.le_mul_of_pos_right _ (Nat.two_pow_pos _)
    _ = 2 ^ (19 + shift) := by rw [split, two_pow_eq]
    _ = 2 ^ 19 * 2 ^ shift := Nat.pow_add 2 19 shift

/-- A magnitude is coarse if its millionths lie in a coarse binade: a fine one below 2^33 would have
to be rounded up by more than half a millionth. -/
theorem coarse_of_inBinade {other : Nat} (bound : significand < 2 * binade)
    (inside : InBinade (millionths (significand * 2 ^ shift) * one) million other)
    (coarse : 1055 ≤ other) : 1055 ≤ shift := by
  by_contra fine
  obtain ⟨last, same⟩ : ∃ last, 1054 = last := ⟨_, rfl⟩
  have unit : 2 ^ shift ≤ 2 ^ last := Nat.pow_le_pow_right (by decide) (by omega)
  have units : one = 2 ^ 20 * 2 ^ last := one_eq (by omega)
  have small : significand * 2 ^ shift ≤ (2 ^ 53 - 1) * 2 ^ last :=
    Nat.mul_le_mul (Nat.le_pred_of_lt bound) unit
  have large : million * (2 ^ 53 * 2 ^ last) ≤ millionths (significand * 2 ^ shift) * one := by
    calc
      million * (2 ^ 53 * 2 ^ last) = million * 2 ^ (53 + last) := by rw [Nat.pow_add]
      _ ≤ million * 2 ^ (other + 52) :=
        Nat.mul_le_mul_left _ (Nat.pow_le_pow_right (by decide) (by omega))
      _ ≤ _ := inside.above (by omega)
  have near := (millionths_near (significand * 2 ^ shift)).1
  have positive := Nat.two_pow_pos last
  rw [million_eq] at near large
  omega

theorem inBinade_millionths (parts : Parts significand shift) (bound : significand < 2 * binade)
    (coarse : 1055 ≤ shift) :
    InBinade (millionths (significand * 2 ^ shift) * one) million shift := by
  have unit := one_le_of_coarse coarse
  have near := millionths_near (significand * 2 ^ shift)
  have positive := Nat.two_pow_pos shift
  constructor
  · have small : significand * 2 ^ shift ≤ (2 ^ 53 - 1) * 2 ^ shift :=
      Nat.mul_le_mul_right _ (Nat.le_pred_of_lt bound)
    rw [million_eq] at near ⊢
    rw [Nat.pow_add]
    omega
  · intro shifted
    -- only the least magnitude of a binade could be rounded out of it, and that one is whole
    rcases Nat.eq_or_lt_of_le (parts.normal shifted) with least | more
    · have top : 2 ^ (shift + 52) = 2 ^ (shift - 1022) * one := by
        have split : shift + 52 = 1074 + (shift - 1022) := by omega
        rw [split, two_pow_eq, Nat.mul_comm]
      have whole : significand * 2 ^ shift = 2 ^ (shift - 1022) * one := by
        rw [← least, ← top, Nat.pow_add, Nat.mul_comm]
        rfl
      rw [whole, millionths_whole, top]
      apply Nat.le_of_eq
      ring
    · have large : (2 ^ 52 + 1) * 2 ^ shift ≤ significand * 2 ^ shift :=
        Nat.mul_le_mul_right _ more
      rw [million_eq] at near ⊢
      rw [Nat.pow_add]
      omega

theorem nearest_millionths_of_coarse {word other : Nat} (finite : word < infinity)
    (inside : InBinade (millionths (grains word) * one) million other) (coarse : 1055 ≤ other) :
    nearest (millionths (grains word)) million = word := by
  obtain ⟨significand, shift, parts, bound, split⟩ := exists_parts word
  rw [split, grains_parts parts] at inside ⊢
  have far := coarse_of_inBinade bound inside coarse
  have unit := one_le_of_coarse far
  have near := millionths_near (significand * 2 ^ shift)
  have positive := Nat.two_pow_pos shift
  have rounded : roundHalfEven (millionths (significand * 2 ^ shift) * one) (million * 2 ^ shift) =
      significand := by
    have scaled : significand * (million * 2 ^ shift) = significand * 2 ^ shift * million := by ring
    rw [million_eq] at near scaled ⊢
    apply roundHalfEven_eq <;> rw [scaled] <;> omega
  rw [nearest_of_inBinade million_pos (inBinade_millionths parts bound far), rounded, ← split]
  exact Nat.min_eq_left (Nat.le_of_lt finite)

end

/-- The millionths of a finite magnitude are read as a finite magnitude that has the same ones. -/
theorem reread {word : Nat} (finite : word < infinity) :
    nearest (millionths (grains word)) million < infinity ∧
      millionths (grains (nearest (millionths (grains word)) million)) =
        millionths (grains word) := by
  have inside := inBinade_log2 (millionths (grains word) * one) million_pos
  rcases Nat.lt_or_ge (Nat.log2 (millionths (grains word) * one / million) - 52) 1055 with fine | coarse
  · exact millionths_nearest_of_fine inside (Nat.le_of_lt_succ fine)
  · rw [nearest_millionths_of_coarse finite inside coarse]
    exact ⟨finite, rfl⟩

end Calculator.Fixed
