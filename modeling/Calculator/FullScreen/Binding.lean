import Calculator.Key
import Calculator.Terminal.Keystroke

namespace Calculator.FullScreen

inductive Action where
  | press (key : Key)
  | scroll (direction : Direction)
  | toggleDetails
  | showHelp
  | quit
  deriving DecidableEq, Repr

def Action.ofChar? (c : Char) : Option Action :=
  if c = 'q' ∨ c = 'Q' then some .quit
  else if c = 'c' ∨ c = 'C' then some (.press .clear)
  else if c = 'd' ∨ c = 'D' then some .toggleDetails
  else (Key.ofChar? c).map .press

def Action.ofCode? : KeyCode → Option Action
  | .char c => ofChar? c
  | .enter => some (.press .equals)
  | .backspace => some (.press .backspace)
  | .delete => some (.press .clear)
  | .up | .pageUp => some (.scroll .up)
  | .down | .pageDown => some (.scroll .down)
  | .function 1 => some .showHelp
  | .escape => some .quit
  | _ => none

/-- With control or alt held only control with C does anything; shift and super change nothing. -/
def Action.ofKeystroke? (stroke : Keystroke) : Option Action :=
  if stroke.modifiers.control || stroke.modifiers.alt then
    if stroke.modifiers.control && (stroke.code == .char 'c' || stroke.code == .char 'C') then
      some .quit
    else none
  else ofCode? stroke.code

end Calculator.FullScreen
