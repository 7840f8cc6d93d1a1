import Calculator.Log
import Calculator.Proofs.DivisionByZero
import Calculator.Proofs.Overflow

namespace Calculator

/-- A division by zero happens in the evaluation of the text. -/
def DividesByZero (text : Text) : Prop :=
  ∃ step ∈ (evaluate text : Evaluation Float).steps, step.DividesByZero

/-- A numeral of the text is read as infinity, or without a division by zero an application leaves the
range of floats. -/
def Overflows (text : Text) : Prop :=
  (∃ run d, .numeral run ∈ Token.scan text ∧ Decimal.ofRun? run = some d ∧ d.Overflows) ∨
    ∃ step ∈ (evaluate text : Evaluation Float).steps, step.LeavesRange ∧ ¬ step.DividesByZero

theorem cause_of_not_finite {text : Text} {value : Float}
    (ok : (evaluate text : Evaluation Float).outcome = .ok value) (infinite : ¬ value.isFinite) :
    DividesByZero text ∨ Overflows text := by
  rcases chain_of_ok ok with ⟨chain, rfl⟩
  have scanned : Token.scan chain.text = chain.tree.tokens := by
    rw [← chain.parses_tree.text_eq]
    exact chain.tree.scan_text
  have evaluated := evaluate_text (α := Float) chain
  rw [evaluated] at ok
  cases ok
  rcases chain.tree.cause_of_not_finite infinite with ⟨l, member, overflows⟩ | ⟨step, member, leaves⟩
  · rw [← scanned] at member
    exact Or.inr (Or.inl ⟨l.run, l.decimal, member, l.ofRun?_run, overflows⟩)
  · have applied : step ∈ (evaluate chain.text : Evaluation Float).steps := by
      rw [evaluated]
      exact member
    by_cases zero : step.DividesByZero
    · exact Or.inl ⟨step, applied, zero⟩
    · exact Or.inr (Or.inr ⟨step, applied, leaves, zero⟩)

theorem not_finite_of_flag {value : Float} (flagged : isDivisionByZero value) :
    ¬ value.isFinite := by
  change value.toModel.unpack.beq positiveInfinity.toModel.unpack at flagged
  change ¬ value.toModel.unpack.isFinite
  rw [show positiveInfinity.toModel.unpack = .infinity .positive from rfl] at flagged
  cases unpacked : value.toModel.unpack with
  | notANumber => exact Bool.false_ne_true
  | infinity sign => exact Bool.false_ne_true
  | zero sign =>
      rw [unpacked] at flagged
      cases flagged
  | finite sign mantissa exponent positive =>
      rw [unpacked] at flagged
      cases sign <;> cases flagged

theorem Decimal.flag_iff (d : Decimal) : isDivisionByZero d.toFloat ↔ d.Overflows := by
  constructor
  · intro flagged
    by_contra within
    exact not_finite_of_flag flagged (d.toFloat_isFinite_iff.mpr within)
  · intro overflows
    have positive : 0 < Nat.pow 10 d.places := Nat.pow_pos (by decide)
    rw [toFloat, (Binary64.nearest_eq_infinity_iff positive).mpr overflows]
    decide +kernel

namespace Log

def Event.ReportsDivision (event : Event) : Prop := event.message = "division by zero".toList

theorem evaluation_silent {expression : Text} {event : Event}
    (member : event ∈ evaluation expression) : ¬ event.ReportsDivision := by
  have applying : "applied operator".toList ≠ "division by zero".toList := by decide
  have ended : "evaluated".toList ≠ "division by zero".toList := by decide
  have failed : "evaluation failed".toList ≠ "division by zero".toList := by decide
  rcases List.mem_append.mp member with inSteps | atEnd
  · rcases List.mem_map.mp inSteps with ⟨step, _, rfl⟩
    exact applying
  · cases outcome : (evaluate expression : Evaluation Float).outcome with
    | ok value =>
        rw [outcome] at atEnd
        rw [List.mem_singleton.mp atEnd]
        exact ended
    | error e =>
        rw [outcome] at atEnd
        cases e with
        | empty | unbalanced =>
            rw [List.mem_singleton.mp atEnd]
            exact failed
        | invalidNumber | unexpectedCharacter | missingOperand => cases atEnd

theorem judged_reports_iff (expression : Text) (outcome : Except EvalError Float) :
    (judged expression outcome).ReportsDivision ↔
      ∃ value, outcome = .ok value ∧ isDivisionByZero value := by
  have recorded : "recorded calculation".toList ≠ "division by zero".toList := by decide
  have infinite : "result is not a finite number".toList ≠ "division by zero".toList := by decide
  have failed : "evaluation failed".toList ≠ "division by zero".toList := by decide
  cases outcome with
  | error e => exact iff_of_false failed (by simp)
  | ok value =>
      simp only [Except.ok.injEq, exists_eq_left', judged]
      split_ifs with finite flagged
      · exact iff_of_false recorded fun flagged => not_finite_of_flag flagged finite
      · exact iff_of_true rfl flagged
      · exact iff_of_false infinite flagged

theorem press_reports_iff (s : Session) (key : Key) :
    (∃ event ∈ press s key, event.ReportsDivision) ↔ key = .equals ∧
      ∃ value, (evaluate s.buffer : Evaluation Float).outcome = .ok value ∧
        isDivisionByZero value := by
  by_cases pressed : key = .equals
  · rw [← judged_reports_iff s.buffer, press, if_pos pressed]
    constructor
    · intro reported
      rcases reported with ⟨event, member, reports⟩
      rcases List.mem_append.mp member with inside | last
      · exact absurd reports (evaluation_silent inside)
      · rw [List.mem_singleton.mp last] at reports
        exact ⟨pressed, reports⟩
    · intro reported
      exact ⟨_, List.mem_append_right _ (List.mem_singleton_self _), reported.2⟩
  · simp [press, pressed]

theorem mem_presses {s : Session} {keys : List Key} {event : Event}
    (member : event ∈ presses s keys) : ∃ before key rest, keys = before ++ key :: rest ∧
      event ∈ press (before.foldl Session.press s) key := by
  induction keys generalizing s with
  | nil => cases member
  | cons key keys ih =>
      rcases List.mem_append.mp member with now | later
      · exact ⟨[], key, keys, rfl, now⟩
      · rcases ih later with ⟨before, other, rest, rfl, present⟩
        exact ⟨key :: before, other, rest, rfl, present⟩

/-- Whatever keys are pressed, a division by zero is reported for a press of equals that met an expression
with a division by zero, or one that leaves the range of floats. -/
theorem division_of_presses {s : Session} {keys : List Key} {event : Event}
    (member : event ∈ presses s keys) (reports : event.ReportsDivision) :
    ∃ before rest, keys = before ++ .equals :: rest ∧
      event ∈ press (before.foldl Session.press s) .equals ∧
      (DividesByZero (before.foldl Session.press s).buffer ∨
        Overflows (before.foldl Session.press s).buffer) := by
  rcases mem_presses member with ⟨before, key, rest, split, present⟩
  rcases (press_reports_iff _ key).mp ⟨event, present, reports⟩ with ⟨rfl, value, ok, flagged⟩
  exact ⟨before, rest, split, present, cause_of_not_finite ok (not_finite_of_flag flagged)⟩

end Log

/-- The flag is raised only if a division by zero happens or the range of floats is left, and so is a
division by zero reported. On a single numeral the flag is raised just if it is too large. -/
theorem division_flag_laws (text : Text) :
    (∀ value : Float, (evaluate text : Evaluation Float).outcome = .ok value →
        isDivisionByZero value → DividesByZero text ∨ Overflows text) ∧
      (∀ s : Session, s.buffer = text → (∃ event ∈ Log.press s .equals, event.ReportsDivision) →
        DividesByZero text ∨ Overflows text) ∧
      ∀ l : Literal, l.run = text → ¬ DividesByZero text ∧
        ((∃ value : Float, (evaluate text : Evaluation Float).outcome = .ok value ∧
          isDivisionByZero value) ↔ l.decimal.Overflows) := by
  have flag (value : Float) (ok : (evaluate text : Evaluation Float).outcome = .ok value)
      (flagged : isDivisionByZero value) : DividesByZero text ∨ Overflows text :=
    cause_of_not_finite ok (not_finite_of_flag flagged)
  refine ⟨flag, ?_, ?_⟩
  · intro s same reported
    rcases (Log.press_reports_iff s .equals).mp reported with ⟨_, value, ok, flagged⟩
    rw [same] at ok
    exact flag value ok flagged
  · intro l same
    rw [← same, DividesByZero, evaluate_literal]
    refine ⟨by simp, ?_⟩
    simp only [Except.ok.injEq, exists_eq_left']
    exact l.decimal.flag_iff

/-- A numeral of three hundred and ten digits is infinity without any division. -/
theorem flagged_without_division :
    let text := '1' :: List.replicate 309 '0'
    (∃ value, (evaluate text : Evaluation Float).outcome = .ok value ∧ isDivisionByZero value) ∧
      ¬ DividesByZero text ∧
      ∃ event ∈ Log.press { buffer := text } .equals, event.ReportsDivision := by
  intro text
  have evaluated : (∃ value, (evaluate text : Evaluation Float).outcome = .ok value ∧
      isDivisionByZero value) := ⟨positiveInfinity, by decide +kernel, by decide +kernel⟩
  have none : (evaluate text : Evaluation Float).steps = [] := by decide +kernel
  refine ⟨evaluated, ?_, (Log.press_reports_iff _ _).mpr ⟨rfl, evaluated⟩⟩
  intro divides
  rcases divides with ⟨step, member, _⟩
  rw [none] at member
  cases member

end Calculator
