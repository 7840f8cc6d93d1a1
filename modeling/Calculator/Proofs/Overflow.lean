import Calculator.Proofs.FloatWord
import Calculator.Proofs.ChainValue
import Calculator.Proofs.Reread

namespace Calculator

namespace Binary64

/-- The number halfway between the greatest finite magnitude and the next power of two. -/
def limit : Nat := Nat.pow 2 1024 - Nat.pow 2 970

theorem limit_grains : limit * one = (2 ^ 54 - 1) * 2 ^ 2044 := by decide +kernel

theorem le_roundHalfEven_iff {num den n : Nat} (positive : 0 < den) (even : n % 2 = 0) :
    n ≤ roundHalfEven num den ↔ 2 * (n * den) ≤ 2 * num + den := by
  have near := roundHalfEven_near num den positive
  constructor
  · intro le
    have scaled : n * den ≤ roundHalfEven num den * den := Nat.mul_le_mul_right den le
    omega
  · intro above
    by_contra less
    have scaled : (roundHalfEven num den + 1) * den ≤ n * den :=
      Nat.mul_le_mul_right den (by omega)
    rw [Nat.succ_mul] at scaled
    -- half a unit is all there is between them, and the odd neighbour is not taken
    have middle : 2 * num = 2 * (roundHalfEven num den * den) + den := by omega
    have tie := roundHalfEven_tie positive (Or.inl middle)
    have next : n * den < (roundHalfEven num den + 2) * den := by
      rw [Nat.add_mul]
      omega
    have below := Nat.lt_of_mul_lt_mul_right next
    omega

theorem infinity_le_iff {significand shift : Nat} (parts : Parts significand shift) :
    infinity ≤ significand + shift * binade ↔
      2045 < shift ∨ shift = 2045 ∧ 2 * binade ≤ significand := by
  have last : infinity = 2047 * binade := by decide
  have le := parts.le
  have normal := parts.normal
  have positive : 0 < binade := by decide
  rw [last]
  -- in the last binade of finite magnitudes alone the significand decides
  rcases Nat.lt_trichotomy shift 2045 with below | rfl | above
  · have bound : (shift + 1) * binade ≤ 2045 * binade := Nat.mul_le_mul_right binade below
    rw [Nat.succ_mul] at bound
    omega
  · omega
  · have bound : 2046 * binade ≤ shift * binade := Nat.mul_le_mul_right binade above
    have large := normal (by omega)
    omega

theorem nearest_eq_infinity_iff {num den : Nat} (positive : 0 < den) :
    nearest num den = infinity ↔ limit * den ≤ num := by
  obtain ⟨shift, inside⟩ : ∃ shift, InBinade (num * one) den shift :=
    ⟨_, inBinade_log2 (num * one) positive⟩
  have scaled : limit * den ≤ num ↔ (2 ^ 54 - 1) * (den * 2 ^ 2044) ≤ num * one := by
    rw [← Nat.mul_le_mul_right_iff Fixed.one_pos, Nat.mul_right_comm, limit_grains, Nat.mul_assoc,
      Nat.mul_comm (2 ^ 2044)]
  have unit (low high : Nat) : den * 2 ^ (low + high) = 2 ^ low * (den * 2 ^ high) := by
    rw [Nat.pow_add, Nat.mul_left_comm]
  have grows {low high : Nat} (le : low ≤ high) : den * 2 ^ low ≤ den * 2 ^ high :=
    Nat.mul_le_mul_left den (Nat.pow_le_pow_right (by decide) le)
  rw [nearest_of_inBinade positive inside, min_eq_right_iff, infinity_le_iff (inside.parts positive),
    scaled]
  -- below the last finite binade, in it, or above it
  rcases Nat.lt_trichotomy shift 2045 with low | last | high
  · have bound : num * one < 2 ^ 53 * (den * 2 ^ 2044) := by
      calc
        num * one < den * 2 ^ (shift + 53) := inside.below
        _ ≤ den * 2 ^ (53 + 2044) := grows (by omega)
        _ = 2 ^ 53 * (den * 2 ^ 2044) := unit 53 2044
    omega
  · have double : den * 2 ^ shift = 2 * (den * 2 ^ 2044) := by
      rw [show shift = 1 + 2044 by omega, unit, Nat.pow_one]
    have even : 2 * binade % 2 = 0 := by decide
    have carry : 2 * binade = 2 ^ 53 := rfl
    rw [le_roundHalfEven_iff (Nat.mul_pos positive (Nat.two_pow_pos shift)) even, double, carry]
    omega
  · have bound : 2 ^ 54 * (den * 2 ^ 2044) ≤ num * one := by
      calc
        2 ^ 54 * (den * 2 ^ 2044) = den * 2 ^ (54 + 2044) := (unit 54 2044).symm
        _ ≤ den * 2 ^ (shift + 52) := grows (by omega)
        _ ≤ num * one := inside.above (by omega)
    omega

end Binary64

def Decimal.Overflows (d : Decimal) : Prop := Binary64.limit * Nat.pow 10 d.places ≤ d.digits

instance : DecidablePred Decimal.Overflows := fun _ => Nat.decLe _ _

example : ¬ Decimal.Overflows ⟨Nat.pow 10 308, 0⟩ ∧ Decimal.Overflows ⟨Nat.pow 10 309, 0⟩ := by
  decide +kernel

theorem positiveInfinity_not_finite : ¬ positiveInfinity.isFinite := by decide +kernel

theorem Decimal.toFloat_isFinite_iff (d : Decimal) : d.toFloat.isFinite ↔ ¬ d.Overflows := by
  have positive : 0 < Nat.pow 10 d.places := Nat.pow_pos (by decide)
  rw [Overflows, ← Binary64.nearest_eq_infinity_iff positive]
  constructor
  · intro finite infinite
    rw [toFloat, infinite] at finite
    exact positiveInfinity_not_finite finite
  · intro finite
    have le : Binary64.nearest d.digits (Nat.pow 10 d.places) ≤ Binary64.infinity :=
      Nat.min_le_right _ _
    exact Binary64.isFinite_ofMagnitude (Nat.lt_of_le_of_ne le finite)

/-- The application makes a value that is not finite of two that are. -/
structure Step.LeavesRange (step : Step Float) : Prop where
  left : step.left.isFinite
  right : step.right.isFinite
  result : ¬ step.result.isFinite

namespace Tree

def tokens : Tree → List Token
  | literal l => [.numeral l.run]
  | node op left right => left.tokens ++ .operator op :: right.tokens

theorem known_text (tree : Tree) : ∀ c ∈ tree.text, Known c := by
  induction tree with
  | literal l =>
      intro c member
      exact Or.inl (l.literal.numeral c member)
  | node op left right ihl ihr =>
      intro c member
      simp only [text, List.mem_append, List.mem_cons] at member
      rcases member with member | rfl | member
      · exact ihl c member
      · exact known_symbol op
      · exact ihr c member

theorem scan_text (tree : Tree) : Token.scan tree.text = tree.tokens := by
  induction tree with
  | literal l => exact Token.scan_run l.run l.literal.nonempty l.literal.numeral
  | node op left right ihl ihr =>
      have apart : ∀ c ∈ (op.symbol :: right.text).head?, ¬ Decimal.isNumeralChar c := by
        simpa using Decimal.symbol_not_numeral op
      rw [text, Token.scan_append _ _ left.known_text (Or.inr apart), Token.scan_symbol, ihl, ihr]
      rfl

/-- Following the operands that are not finite down the tree ends at a numeral read as infinity, or at
an application that leaves the range of floats. -/
theorem cause_of_not_finite (tree : Tree) (infinite : ¬ (tree.value : Float).isFinite) :
    (∃ l : Literal, .numeral l.run ∈ tree.tokens ∧ l.decimal.Overflows) ∨
      ∃ step ∈ (tree.steps : List (Step Float)), step.LeavesRange := by
  induction tree with
  | literal l =>
      have overflows : l.decimal.Overflows := by
        by_contra within
        exact infinite ((Decimal.toFloat_isFinite_iff l.decimal).mpr within)
      exact Or.inl ⟨l, List.mem_singleton_self _, overflows⟩
  | node op left right ihl ihr =>
      by_cases leftFinite : (left.value : Float).isFinite
      · by_cases rightFinite : (right.value : Float).isFinite
        · exact Or.inr ⟨_, List.mem_append_right _ (List.mem_singleton_self _),
            leftFinite, rightFinite, infinite⟩
        · rcases ihr rightFinite with ⟨l, member, overflows⟩ | ⟨step, member, leaves⟩
          · exact Or.inl ⟨l, by simp [tokens, member], overflows⟩
          · exact Or.inr ⟨step, by simp [steps, member], leaves⟩
      · rcases ihl leftFinite with ⟨l, member, overflows⟩ | ⟨step, member, leaves⟩
        · exact Or.inl ⟨l, by simp [tokens, member], overflows⟩
        · exact Or.inr ⟨step, by simp [steps, member], leaves⟩

end Tree

end Calculator
