import Calculator.Session
import Calculator.Terminal.Keystroke

namespace Calculator.LineMode

inductive Command where
  | press (key : Key)
  | quit
  deriving DecidableEq, Repr

def Command.ofKeystroke? (stroke : Keystroke) : Option Command :=
  if stroke.modifiers.alt then none
  else if stroke.modifiers.control then
    if stroke.code = .char 'c' then some .quit
    else if stroke.code = .char 'l' then some (.press .clear)
    else none
  else match stroke.code with
    | .char c => if c = 'q' then some .quit else (Key.ofChar? c).map .press
    | .enter => some (.press .equals)
    | .backspace => some (.press .backspace)
    | .escape => some (.press .clear)
    | _ => none

def newline : Text := ['\r', '\n']

def eraseLine : Text := "\r\x1B[2K".toList

def greeting : Text :=
  ("Keypad Calculator\n" ++
    "Keys: 0-9 . + - * / ^ %   Enter or = to calculate\n" ++
    "Backspace undoes, Esc or Ctrl+L clears input and history, q or Ctrl+C quits\n\n").toList

def farewell : Text := newline ++ "Goodbye!".toList ++ newline

def prompt (s : Session) : Text := eraseLine ++ "Expression: ".toList ++ s.shown

def resultLine (s : Session) : Text :=
  match s.display with
  | .error => "  Error".toList ++ newline
  | .input =>
    match s.history.getLast? with
    | some entry => ' ' :: ' ' :: entry.text ++ newline
    | none => []

def detailLines (s : Session) : List Text :=
  (Step.listing s.lastSteps).map fun line => "    ".toList ++ line ++ newline

/-- What is written between a key and the prompt after it, given the session after the key. -/
def reply (details : Bool) (key : Key) (s : Session) : List Text :=
  match key with
  | .equals => newline :: resultLine s :: if details then detailLines s else []
  | .clear => [eraseLine ++ "History cleared".toList ++ newline]
  | _ => []

def answers (details : Bool) : Session → List Keystroke → List Text
  | _, [] => [farewell]
  | s, stroke :: rest =>
    match Command.ofKeystroke? stroke with
    | none => answers details s rest
    | some .quit => [farewell]
    | some (.press key) =>
      let s := s.press key
      reply details key s ++ prompt s :: answers details s rest

/-- All that is written in a session. -/
def transcript (details : Bool) (strokes : List Keystroke) : List Text :=
  greeting :: prompt {} :: answers details {} strokes

def keys : List Keystroke → List Key
  | [] => []
  | stroke :: rest =>
    match Command.ofKeystroke? stroke with
    | none => keys rest
    | some .quit => []
    | some (.press key) => key :: keys rest

end Calculator.LineMode
