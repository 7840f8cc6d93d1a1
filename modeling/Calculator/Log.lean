import Calculator.Session

namespace Calculator

namespace Log

inductive Level where
  | error
  | warn
  | info
  | debug
  | trace
  deriving DecidableEq, Repr

def Level.name : Level → Text
  | error => "ERROR".toList
  | warn => "WARN".toList
  | info => "INFO".toList
  | debug => "DEBUG".toList
  | trace => "TRACE".toList

/-- A greater rank is a finer level. -/
def Level.rank : Level → Nat
  | error => 1
  | warn => 2
  | info => 3
  | debug => 4
  | trace => 5

structure Field where
  name : Text
  value : Text
  deriving DecidableEq, Repr

structure Event where
  level : Level
  target : Text
  message : Text
  fields : List Field
  deriving DecidableEq, Repr

def Event.line (e : Event) : Text :=
  e.level.name ++ ' ' :: e.target ++ ": ".toList ++ e.message ++
    e.fields.flatMap fun f => ' ' :: f.name ++ '=' :: f.value

def engine : Text := "keypadcalc::calc_engine".toList

def keypad : Text := "keypadcalc::keypad".toList

def field (name : String) (value : Text) : Field := ⟨name.toList, value⟩

def quoted (text : Text) : Text := '"' :: text ++ ['"']

def applied (step : Step Float) : Event :=
  ⟨.trace, engine, "applied operator".toList,
    [field "op" [step.op.symbol], field "left" (Shortest.logged step.left),
     field "right" (Shortest.logged step.right), field "result" (Shortest.logged step.result)]⟩

/-- What an evaluation reports at its end. Errors met while reading tokens are not reported. -/
def concluded (expression : Text) : Except EvalError Float → List Event
  | .ok value =>
    [⟨.debug, engine, "evaluated".toList,
      [field "expression" (quoted expression), field "value" (Shortest.logged value)]⟩]
  | .error e =>
    match e with
    | .empty | .unbalanced _ =>
      [⟨.debug, engine, "evaluation failed".toList,
        [field "expression" (quoted expression), field "error" e.message]⟩]
    | _ => []

def evaluation (expression : Text) : List Event :=
  let evaluation : Evaluation Float := evaluate expression
  evaluation.steps.map applied ++ concluded expression evaluation.outcome

def judged (expression : Text) : Except EvalError Float → Event
  | .ok value =>
    if value.isFinite then
      ⟨.debug, keypad, "recorded calculation".toList,
        [field "expression" expression, field "result" (Fixed.ofFloat value)]⟩
    else if isDivisionByZero value then
      ⟨.warn, keypad, "division by zero".toList, [field "expression" expression]⟩
    else
      ⟨.warn, keypad, "result is not a finite number".toList,
        [field "expression" expression, field "value" (Shortest.logged value)]⟩
  | .error e =>
    ⟨.warn, keypad, "evaluation failed".toList,
      [field "expression" expression, field "error" e.message]⟩

def press (s : Session) (key : Key) : List Event :=
  if key = .equals then
    let evaluation : Evaluation Float := evaluate s.buffer
    Log.evaluation s.buffer ++ [judged s.buffer evaluation.outcome]
  else []

def presses : Session → List Key → List Event
  | _, [] => []
  | s, key :: rest => press s key ++ presses (s.press key) rest

end Log

end Calculator
