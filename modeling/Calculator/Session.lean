import Calculator.Buffer
import Calculator.FloatArithmetic
import Calculator.History
import Calculator.Key

/-!
The state behind every keypad: the expression being typed, the history, whether the last equals
failed, and the operators it applied. A finite result is recorded and becomes the next input;
everything else empties the buffer and shows an error until the next key.
-/

namespace Calculator

inductive Display where
  | input
  | error
  deriving DecidableEq, Repr

structure Session where
  buffer : Buffer := []
  history : History := []
  display : Display := .input
  lastSteps : List (Step Float) := []

namespace Session

def shown (s : Session) : Text :=
  match s.display with
  | .input => s.buffer
  | .error => "Error".toList

def succeed (s : Session) (value : Float) : Session :=
  let result := Fixed.ofFloat value
  { s with
    buffer := result
    history := s.history.record ⟨s.buffer, result⟩
    display := .input }

def fail (s : Session) : Session := { s with buffer := [], display := .error }

def equals (s : Session) : Session :=
  let evaluation : Evaluation Float := evaluate s.buffer
  let s := { s with lastSteps := evaluation.steps }
  match evaluation.outcome with
  | .ok value => if value.isFinite then s.succeed value else s.fail
  | .error _ => s.fail

def press (s : Session) : Key → Session
  | .digit c => { s with display := .input, buffer := s.buffer.digit c }
  | .operator op => { s with display := .input, buffer := s.buffer.operator op }
  | .percent => { s with display := .input, buffer := s.buffer.percent }
  | .backspace => { s with display := .input, buffer := s.buffer.backspace }
  | .clear => {}
  | .equals => s.equals

end Session

end Calculator
