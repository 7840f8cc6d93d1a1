import Mathlib.Tactic.SplitIfs
import Calculator.FullScreen.Program
import Calculator.LineMode

namespace Calculator

/-- Digit keys are for a digit or the point. -/
def Key.Typed : Key → Prop
  | .digit c => Decimal.isNumeralChar c
  | _ => True

instance : DecidablePred Key.Typed
  | .digit c => inferInstanceAs (Decidable (Decimal.isNumeralChar c = true))
  | .operator _ | .percent | .equals | .clear | .backspace => isTrue trivial

theorem Key.typed_ofChar? {c : Char} {key : Key} (found : ofChar? c = some key) : key.Typed := by
  unfold ofChar? at found
  split_ifs at found with inside percent equals
  · cases found
    exact inside
  · cases found
    trivial
  · cases found
    trivial
  · rcases Option.map_eq_some_iff.mp found with ⟨op, _, rfl⟩
    trivial

namespace LineMode

theorem typed_ofKeystroke? {stroke : Keystroke} {key : Key}
    (found : Command.ofKeystroke? stroke = some (.press key)) : key.Typed := by
  unfold Command.ofKeystroke? at found
  split at found
  · cases found
  · split at found
    · split at found
      · cases found
      · split at found
        · cases found
          trivial
        · cases found
    · cases code : stroke.code with
      | char c =>
          rw [code] at found
          dsimp only at found
          split at found
          · cases found
          · rcases Option.map_eq_some_iff.mp found with ⟨mapped, typed, same⟩
            cases same
            exact Key.typed_ofChar? typed
      | _ =>
          rw [code] at found
          cases found <;> trivial

theorem typed_keys (strokes : List Keystroke) : ∀ key ∈ keys strokes, key.Typed := by
  induction strokes with
  | nil => simp [keys]
  | cons stroke rest ih =>
      intro key member
      unfold keys at member
      split at member
      case h_1 => exact ih key member
      case h_2 => cases member
      case h_3 pressed found =>
        rcases List.mem_cons.mp member with rfl | later
        · exact typed_ofKeystroke? found
        · exact ih key later

end LineMode

namespace FullScreen

theorem typed_ofChar? {c : Char} {key : Key}
    (found : Action.ofChar? c = some (.press key)) : key.Typed := by
  unfold Action.ofChar? at found
  split at found
  · cases found
  · split at found
    · cases found
      trivial
    · split at found
      · cases found
      · rcases Option.map_eq_some_iff.mp found with ⟨mapped, typed, same⟩
        cases same
        exact Key.typed_ofChar? typed

theorem typed_ofCode? {code : KeyCode} {key : Key}
    (found : Action.ofCode? code = some (.press key)) : key.Typed := by
  cases code with
  | char c => exact typed_ofChar? found
  | function n =>
      match n with
      | 0 | 1 | _ + 2 => cases found
  | _ => cases found <;> trivial

theorem typed_ofKeystroke? {stroke : Keystroke} {key : Key}
    (found : Action.ofKeystroke? stroke = some (.press key)) : key.Typed := by
  unfold Action.ofKeystroke? at found
  split at found
  · split at found
    · cases found
    · cases found
  · exact typed_ofCode? found

theorem App.typed_pressed? {app : App} {event : TerminalEvent} {key : Key}
    (pressed : app.pressed? event = some key) : key.Typed := by
  unfold App.pressed? at pressed
  split at pressed
  case h_2 => cases pressed
  case h_1 stroke =>
    split at pressed
    case isTrue => cases pressed
    case isFalse =>
      split at pressed
      case h_2 => cases pressed
      case h_1 other found =>
        cases pressed
        exact typed_ofKeystroke? found

end FullScreen

end Calculator
