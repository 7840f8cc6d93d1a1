import Calculator.FullScreen.Draw

namespace Calculator.FullScreen

def run (size : Size) : App → List TerminalEvent → App × Screen
  | app, [] => app.draw size
  | app, event :: rest =>
    let drawn := app.settle size
    if drawn.quitting then (drawn, drawn.screen size) else run size (drawn.handle event) rest

def App.pressed? (app : App) : TerminalEvent → Option Key
  | .key stroke =>
    if app.helpOpen then none
    else match Action.ofKeystroke? stroke with
      | some (.press key) => some key
      | _ => none
  | _ => none

def keys (size : Size) : App → List TerminalEvent → List Key
  | _, [] => []
  | app, event :: rest =>
    let drawn := app.settle size
    if drawn.quitting then []
    else (drawn.pressed? event).toList ++ keys size (drawn.handle event) rest

/-- Terminal modes for the alternate screen and the mouse, in the order they are set. -/
def modesSet : List Nat := [1049, 1000, 1002, 1003, 1015, 1006]

def modesReset : List Nat := [1049, 1006, 1015, 1003, 1002, 1000]

def setMode (mode : Nat) : Text := '?' :: Text.ofNat mode ++ ['h']

def resetMode (mode : Nat) : Text := '?' :: Text.ofNat mode ++ ['l']

def modeChanges : List Text := modesSet.map setMode ++ modesReset.map resetMode

end Calculator.FullScreen
