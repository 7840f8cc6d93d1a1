import Mathlib.Data.List.DropRight
import Calculator.Proofs.ResultValue

namespace Calculator.Fixed

open Binary64

def allPlaces : (count n : Nat) → Text
  | 0, _ => []
  | count + 1, n => Nat.digitChar (n / Nat.pow 10 count) :: allPlaces count (n % Nat.pow 10 count)

/-- A value with six places, and with its sign even if they are zeros. -/
def sixPlaces : Binary64.Value → Text
  | .notANumber => "NaN".toList
  | .infinite negative => if negative then "-inf".toList else "inf".toList
  | .finite negative grains =>
    let n := millionths grains
    (if negative then ['-'] else []) ++ Text.ofNat (n / million) ++ '.' :: allPlaces 6 (n % million)

/-- What is left of a text with a point. -/
def shortened (text : Text) : Text :=
  if '.' ∈ text then
    let short := (text.rdropWhile (· == '0')).rdropWhile (· == '.')
    if short = "-0".toList then "0".toList else short
  else text

theorem rdropWhile_cons (p : Char → Bool) (c : Char) (text : Text) :
    (c :: text).rdropWhile p =
      if text.rdropWhile p = [] ∧ p c then [] else c :: text.rdropWhile p := by
  simp only [List.rdropWhile, List.reverse_cons, List.dropWhile_append, List.isEmpty_iff,
    List.reverse_eq_nil_iff]
  by_cases none : text.reverse.dropWhile p = []
  · by_cases dropped : p c <;> simp [none, dropped]
  · simp [none]

theorem rdropWhile_append_cons {p : Char → Bool} {c : Char} (stays : ¬ p c) (front back : Text) :
    (front ++ c :: back).rdropWhile p = front ++ c :: back.rdropWhile p := by
  induction front with
  | nil => rw [List.nil_append, rdropWhile_cons, if_neg fun both => stays both.2, List.nil_append]
  | cons d front ih =>
      rw [List.cons_append, rdropWhile_cons, ih, if_neg (by simp), List.cons_append]

theorem rdropWhile_point {digits : Text} (nonempty : digits ≠ []) (all : ∀ c ∈ digits, c.isDigit)
    (front : Text) : (front ++ digits).rdropWhile (· == '.') = front ++ digits := by
  apply List.rdropWhile_eq_self_iff.mpr
  intro _
  rw [List.getLast_append_of_ne_nil _ nonempty]
  simpa using Decimal.digit_ne_point (all _ (List.getLast_mem nonempty))

theorem fraction_eq_nil_iff {count n : Nat} (below : n < 10 ^ count) :
    fraction count n = [] ↔ n = 0 := by
  cases count with
  | zero =>
      have zero : n = 0 := Nat.lt_one_iff.mp below
      exact iff_of_true rfl zero
  | succ count => cases n <;> simp [fraction]

theorem fraction_eq_rdropWhile {count n : Nat} (below : n < 10 ^ count) :
    fraction count n = (allPlaces count n).rdropWhile (· == '0') := by
  induction count generalizing n with
  | zero => rfl
  | succ count ih =>
      have rest : n % Nat.pow 10 count < 10 ^ count := Nat.mod_lt n (Nat.pow_pos (by decide))
      have split := Nat.div_add_mod n (Nat.pow 10 count)
      rw [allPlaces, rdropWhile_cons]
      simp only [← ih rest, fraction_eq_nil_iff rest, beq_iff_eq, Nat.digitChar_eq_zero]
      cases n with
      | zero => rw [if_pos ⟨Nat.zero_mod _, Nat.zero_div _⟩, fraction]
      | succ n =>
          rw [if_neg, fraction]
          rintro ⟨last, first⟩
          rw [last, first] at split
          cases split

theorem unsigned_injective {n m : Nat} (same : unsigned n = unsigned m) : n = m := by
  obtain ⟨d, missing, read, digits, places⟩ := unsigned_value n
  obtain ⟨other, lacking, again, digits', places'⟩ := unsigned_value m
  rw [same, again] at read
  obtain rfl := Option.some.inj read
  have scale : 10 ^ missing = 10 ^ lacking :=
    Nat.eq_of_mul_eq_mul_left (Nat.pow_pos (by decide)) (places.trans places'.symm)
  rw [← digits, ← digits', scale]

theorem minus_not_mem_unsigned (n : Nat) : '-' ∉ unsigned n := by
  intro member
  exact absurd ((unsigned_literal n).numeral '-' member) (by decide)

theorem rdropWhile_sixPlaces (sign : Text) (n : Nat) :
    ((sign ++ Text.ofNat (n / million) ++ '.' :: allPlaces 6 (n % million)).rdropWhile
      (· == '0')).rdropWhile (· == '.') = sign ++ unsigned n := by
  have below : n % million < 10 ^ 6 := Nat.mod_lt n million_pos
  have whole := whole_digits (n / million)
  have some : Text.ofNat (n / million) ≠ [] := Nat.toDigits_ne_nil
  have places := fraction_digits 6 _ below
  -- the point stops the zeros from being dropped any further; it goes next if it ends the text
  rw [rdropWhile_append_cons (by decide), ← fraction_eq_rdropWhile below]
  unfold unsigned
  dsimp only
  split_ifs with none
  · rw [List.isEmpty_iff.mp none, List.rdropWhile_concat_pos _ _ _ (by decide),
      rdropWhile_point some whole]
  · have kept := rdropWhile_point (mt List.isEmpty_iff.mpr none) places
      (sign ++ Text.ofNat (n / million) ++ ['.'])
    simpa using kept

theorem unsigned_zero : unsigned 0 = "0".toList := by decide

theorem shortened_sixPlaces (sign : Text) (n : Nat) :
    shortened (sign ++ Text.ofNat (n / million) ++ '.' :: allPlaces 6 (n % million)) =
      if sign ++ unsigned n = "-0".toList then "0".toList else sign ++ unsigned n := by
  rw [← rdropWhile_sixPlaces]
  exact if_pos (by simp)

theorem signed_unsigned (negative : Bool) (n : Nat) :
    (if negative && n != 0 then '-' :: unsigned n else unsigned n) =
      if (if negative then ['-'] else []) ++ unsigned n = "-0".toList then "0".toList
      else (if negative then ['-'] else []) ++ unsigned n := by
  cases negative with
  | false =>
      have plain : unsigned n ≠ "-0".toList := by
        intro same
        exact minus_not_mem_unsigned n (by simp [same])
      exact (if_neg plain).symm
  | true =>
      by_cases zero : n = 0
      · rw [zero, unsigned_zero]
        decide
      · have other : '-' :: unsigned n ≠ "-0".toList := by
          intro same
          apply zero
          apply unsigned_injective
          rw [unsigned_zero]
          exact (List.cons.inj same).2
        have signed : (true && n != 0) = true := by simpa using zero
        rw [if_pos signed]
        exact (if_neg other).symm

theorem ofValue_eq_shortened (value : Binary64.Value) : ofValue value = shortened (sixPlaces value) := by
  cases value with
  | notANumber => decide
  | infinite negative => cases negative <;> decide
  | finite negative grains =>
      exact (signed_unsigned negative _).trans (shortened_sixPlaces _ _).symm

end Calculator.Fixed
