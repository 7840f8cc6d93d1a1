import Calculator.Proofs.ChainValue
import Calculator.Proofs.EqualsFailure
import Calculator.Proofs.ResultValue

namespace Calculator

theorem not_ok_of_sign {α : Type} [Arithmetic α] {text : Text} (signed : text.head? = some '-')
    (value : α) : (evaluate text : Evaluation α).outcome ≠ .ok value := by
  intro ok
  rcases chain_of_ok ok with ⟨chain, rfl⟩
  exact absurd (chain.numeral_start '-' signed) (by decide)

namespace Session

theorem shown_input {s : Session} (input : s.display = .input) : s.shown = s.buffer := by
  rw [shown, input]

theorem recorded_signed {s : Session} (signed : s.buffer.head? = some '-') : s.recorded? = none := by
  unfold recorded?
  cases outcome : (evaluate s.buffer : Evaluation Float).outcome with
  | error error => rfl
  | ok value => exact absurd outcome (not_ok_of_sign signed value)

theorem recorded_result {s t : Session} {entry : Entry} (recorded : s.recorded? = some entry)
    (unsigned : entry.result.head? ≠ some '-') (shown : t.buffer = entry.result) :
    t.recorded? = some ⟨entry.result, entry.result⟩ := by
  rcases (recorded_eq_some_iff s entry).mp recorded with ⟨value, _, finite, rfl⟩
  rcases Fixed.ofFloat_reread finite unsigned with ⟨l, run, again, same⟩
  apply (recorded_eq_some_iff t _).mpr
  refine ⟨l.decimal.toFloat, ?_, again, ?_⟩
  · rw [shown, ← run, evaluate_literal]
    rfl
  · rw [shown, same]

theorem equals_replicate {s : Session} {entry : Entry} (recorded : s.recorded? = some entry)
    (unsigned : entry.result.head? ≠ some '-') (n : Nat) :
    ((List.replicate n Key.equals).foldl press s.equals).display = .input ∧
      ((List.replicate n Key.equals).foldl press s.equals).buffer = entry.result ∧
      ((List.replicate n Key.equals).foldl press s.equals).history =
        s.equals.history ++ List.replicate n ⟨entry.result, entry.result⟩ := by
  induction n with
  | zero =>
      rw [equals_of_some recorded]
      exact ⟨rfl, rfl, (List.append_nil _).symm⟩
  | succ n ih =>
      -- the last press finds the result of the one before it in the buffer
      rcases ih with ⟨_, shown, history⟩
      have last : (List.replicate (n + 1) Key.equals).foldl press s.equals =
          ((List.replicate n Key.equals).foldl press s.equals).equals := by
        rw [List.replicate_succ', List.foldl_append]
        rfl
      rw [last, equals_of_some (recorded_result recorded unsigned shown), history,
        List.replicate_succ', List.append_assoc]
      exact ⟨rfl, rfl, rfl⟩

/-- After an equals press that succeeds, further ones keep a result without sign and record it each
time; with a sign, the next one fails. -/
theorem equals_repeated (s : Session) (success : (s.press .equals).display = .input) :
    let first := s.press .equals
    (first.shown.head? ≠ some '-' → ∀ n,
      let later := (List.replicate n Key.equals).foldl press first
      later.display = .input ∧ later.shown = first.shown ∧
        later.history = first.history ++ List.replicate n ⟨first.shown, first.shown⟩) ∧
    (first.shown.head? = some '-' →
      let next := first.press .equals
      next.display = .error ∧ next.buffer = [] ∧ next.history = first.history) := by
  intro first
  obtain ⟨entry, recorded⟩ : ∃ entry, s.recorded? = some entry := by
    apply Option.ne_none_iff_exists'.mp
    intro unrecorded
    have error : (s.press .equals).display = .error := (equals_error_iff s).mpr unrecorded
    rw [success] at error
    cases error
  have pressed : first = ⟨entry.result, s.history ++ [entry], .input,
      (evaluate s.buffer : Evaluation Float).steps⟩ := equals_of_some recorded
  have shown : first.shown = entry.result := by rw [pressed]; rfl
  rw [shown]
  constructor
  · intro unsigned n
    rcases equals_replicate recorded unsigned n with ⟨input, buffer, history⟩
    exact ⟨input, (shown_input input).trans buffer, history⟩
  · intro signed
    have unrecorded : first.recorded? = none := by
      apply recorded_signed
      rw [pressed]
      exact signed
    change first.equals.display = .error ∧ first.equals.buffer = [] ∧
      first.equals.history = first.history
    rw [equals_of_none unrecorded]
    exact ⟨rfl, rfl, rfl⟩

theorem equals_repeated_third :
    let third : Session := { buffer := "1/3".toList }
    (third.press .equals).display = .input ∧
      (third.press .equals).shown = "0.333333".toList ∧
      ((List.replicate 7 Key.equals).foldl press (third.press .equals)).shown =
        "0.333333".toList := by
  intro third
  have success : (third.press .equals).display = .input := by decide +kernel
  have shown : (third.press .equals).shown = "0.333333".toList := by decide +kernel
  have unsigned : (third.press .equals).shown.head? ≠ some '-' := by
    rw [shown]
    decide
  exact ⟨success, shown, ((equals_repeated third success).1 unsigned 7).2.1.trans shown⟩

end Session

end Calculator
