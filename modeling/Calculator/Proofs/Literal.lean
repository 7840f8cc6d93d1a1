import Mathlib.Data.List.TakeWhile
import Calculator.Token

namespace Calculator

/-- A run of digits and points with at least one digit and at most one point. -/
structure IsLiteral (run : Text) : Prop where
  numeral : ∀ c ∈ run, Decimal.isNumeralChar c
  digit : ∃ c ∈ run, c.isDigit
  point : run.count '.' ≤ 1

/-- In `front ++ run ++ back` the run cannot be extended to either side. -/
structure MaximalRun (front run back : Text) : Prop where
  nonempty : run ≠ []
  numeral : ∀ c ∈ run, Decimal.isNumeralChar c
  starts : ∀ c ∈ front.getLast?, ¬ Decimal.isNumeralChar c
  ends : ∀ c ∈ back.head?, ¬ Decimal.isNumeralChar c

theorem MaximalRun.extend {head front run back : Text} (maximal : MaximalRun front run back)
    (apart : (∀ c ∈ head.getLast?, ¬ Decimal.isNumeralChar c) ∨
      ∀ c ∈ (front ++ run ++ back).head?, ¬ Decimal.isNumeralChar c) :
    MaximalRun (head ++ front) run back := by
  refine ⟨maximal.nonempty, maximal.numeral, ?_, maximal.ends⟩
  cases front with
  | nil =>
      rw [List.append_nil]
      refine apart.resolve_right fun outside => ?_
      rcases List.exists_cons_of_ne_nil maximal.nonempty with ⟨c, more, rfl⟩
      exact outside c rfl (maximal.numeral c List.mem_cons_self)
  | cons d front => simpa using maximal.starts

theorem IsLiteral.nonempty {run : Text} (literal : IsLiteral run) : run ≠ [] := by
  rcases literal.digit with ⟨c, member, _⟩
  exact List.ne_nil_of_mem member

theorem Operator.symbol_injective {op other : Operator} (same : op.symbol = other.symbol) :
    op = other := by
  have found := congrArg Operator.ofChar? same
  simpa using found

namespace Decimal

theorem isNumeralChar_iff {c : Char} : isNumeralChar c ↔ c.isDigit ∨ c = '.' := by
  simp [isNumeralChar]

theorem digit_ne_point {c : Char} (digit : c.isDigit) : c ≠ '.' := by
  intro point
  rw [point] at digit
  exact absurd digit (by decide)

theorem symbol_not_numeral (op : Operator) : ¬ isNumeralChar op.symbol := by
  cases op <;> decide

theorem numeral_not_symbol {c : Char} (inside : isNumeralChar c) : ¬ Operator.isSymbol c := by
  intro symbol
  rcases Operator.isSymbol_iff.mp symbol with ⟨op, rfl⟩
  exact symbol_not_numeral op inside

theorem count_point_digits {run : Text} (digits : ∀ c ∈ run, c.isDigit) : run.count '.' = 0 := by
  rw [List.count_eq_zero]
  intro member
  exact digit_ne_point (digits _ member) rfl

theorem run_split (run : Text) (numeral : ∀ c ∈ run, isNumeralChar c) :
    (∀ c ∈ run, c.isDigit) ∨
      ∃ whole fraction, (∀ c ∈ whole, c.isDigit) ∧ run = whole ++ '.' :: fraction := by
  have split := List.takeWhile_append_dropWhile (p := Char.isDigit) (l := run)
  have digits : ∀ c ∈ run.takeWhile Char.isDigit, c.isDigit := fun c member =>
    List.mem_takeWhile_imp member
  cases rest : run.dropWhile Char.isDigit with
  | nil => exact Or.inl (List.dropWhile_eq_nil_iff.mp rest)
  | cons c fraction =>
      rw [rest] at split
      have stop : ¬ c.isDigit := by
        have head := List.head_dropWhile_not Char.isDigit (l := run) (by simp [rest])
        simpa [rest] using head
      have member : c ∈ run := by rw [← split]; simp
      have point : c = '.' := (isNumeralChar_iff.mp (numeral c member)).resolve_left stop
      exact Or.inr ⟨_, fraction, digits, by rw [← point]; exact split.symm⟩

theorem ofRun?_whole {run : Text} (digits : ∀ c ∈ run, c.isDigit) :
    ofRun? run = if run.isEmpty then none else some ⟨ofDigits run, 0⟩ := by
  have whole : run.takeWhile Char.isDigit = run := List.takeWhile_eq_self_iff.mpr digits
  have rest : run.dropWhile Char.isDigit = [] := List.dropWhile_eq_nil_iff.mpr digits
  simp [ofRun?, whole, rest]

theorem ofRun?_pointed {whole : Text} (digits : ∀ c ∈ whole, c.isDigit) (fraction : Text) :
    ofRun? (whole ++ '.' :: fraction) =
      if (whole ++ fraction).isEmpty || !fraction.all Char.isDigit then none
      else some ⟨ofDigits (whole ++ fraction), fraction.length⟩ := by
  have taken : (whole ++ '.' :: fraction).takeWhile Char.isDigit = whole := by
    rw [List.takeWhile_append_of_pos digits]
    simp
  have dropped : (whole ++ '.' :: fraction).dropWhile Char.isDigit = '.' :: fraction := by
    rw [List.dropWhile_append_of_pos digits]
    simp
  simp only [ofRun?, taken, dropped, List.drop_succ_cons, List.drop_zero]

theorem ofRun?_digits (run : Text) (digits : ∀ c ∈ run, c.isDigit) :
    (ofRun? run).isSome ↔ run ≠ [] := by
  rw [ofRun?_whole digits]
  cases run <;> simp

theorem ofRun?_point (whole fraction : Text) (digits : ∀ c ∈ whole, c.isDigit) :
    (ofRun? (whole ++ '.' :: fraction)).isSome ↔
      whole ++ fraction ≠ [] ∧ ∀ c ∈ fraction, c.isDigit := by
  rw [ofRun?_pointed digits]
  by_cases nonempty : whole ++ fraction = [] <;>
    by_cases all : ∀ c ∈ fraction, c.isDigit <;> simp_all

theorem ofRun?_isSome_iff (run : Text) (numeral : ∀ c ∈ run, isNumeralChar c) :
    (ofRun? run).isSome ↔ IsLiteral run := by
  rcases run_split run numeral with digits | ⟨whole, fraction, digits, rfl⟩
  · rw [ofRun?_digits run digits]
    constructor
    · intro nonempty
      rcases List.exists_mem_of_ne_nil run nonempty with ⟨c, member⟩
      exact ⟨numeral, ⟨c, member, digits c member⟩, by rw [count_point_digits digits]; omega⟩
    · exact IsLiteral.nonempty
  · have points : (whole ++ '.' :: fraction).count '.' = fraction.count '.' + 1 := by
      simp [List.count_append, count_point_digits digits]
    rw [ofRun?_point whole fraction digits]
    constructor
    · intro split
      rcases split with ⟨nonempty, all⟩
      rcases List.exists_mem_of_ne_nil _ nonempty with ⟨c, member⟩
      have digit : c.isDigit := (List.mem_append.mp member).elim (digits c) (all c)
      have present : c ∈ whole ++ '.' :: fraction := by
        rcases List.mem_append.mp member with left | right <;> simp [*]
      exact ⟨numeral, ⟨c, present, digit⟩, by rw [points, count_point_digits all]⟩
    · intro literal
      have none : fraction.count '.' = 0 := by have := literal.point; omega
      have all : ∀ c ∈ fraction, c.isDigit := by
        intro c member
        have kind := isNumeralChar_iff.mp (numeral c (by simp [member]))
        exact kind.resolve_right fun point => List.count_eq_zero.mp none (point ▸ member)
      rcases literal.digit with ⟨c, member, digit⟩
      refine ⟨List.ne_nil_of_mem (a := c) ?_, all⟩
      have other := digit_ne_point digit
      simpa [other] using member

end Decimal

/-- A literal as data: a run with the reason that it reads. -/
structure Literal where
  run : Text
  literal : IsLiteral run

namespace Literal

theorem reads (l : Literal) : (Decimal.ofRun? l.run).isSome :=
  (Decimal.ofRun?_isSome_iff l.run l.literal.numeral).mpr l.literal

def decimal (l : Literal) : Decimal := (Decimal.ofRun? l.run).get l.reads

theorem ofRun?_run (l : Literal) : Decimal.ofRun? l.run = some l.decimal := by
  simp [decimal]

def ofDigit (c : Char) (digit : c.isDigit) : Literal where
  run := [c]
  literal := by
    refine ⟨?_, ⟨c, List.mem_singleton_self c, digit⟩, List.count_le_length⟩
    exact List.forall_mem_singleton.mpr (Decimal.isNumeralChar_iff.mpr (Or.inl digit))

end Literal

end Calculator
