import Calculator.FullScreen.Binding
import Calculator.Session

/-!
The state of the full-screen calculator and how events change it.

The history panel counts lines: `historyLines` is how many it had when it was last drawn,
`historyScroll` how many to leave out above, and `followNewest` asks the next draw to go to the
end. Counters do not pass `counterLimit`.
-/

namespace Calculator.FullScreen

def counterLimit : Nat := UInt64.size - 1

structure App where
  session : Session := {}
  lastPressed : Option Key := none
  quitting : Bool := false
  helpOpen : Bool := false
  helpScroll : Nat := 0
  detailsShown : Bool := false
  listHeight : Nat := 5
  historyLines : Nat := 0
  historyScroll : Nat := 0
  followNewest : Bool := false
  tooSmall : Bool := false

namespace App

def maxHistoryScroll (app : App) : Nat := app.historyLines - app.listHeight

/-- A page is one line less than the panel holds, and at least one line. -/
def page (app : App) : Nat := max (app.listHeight - 1) 1

def scrollHistory (app : App) : Direction → App
  | .up => { app with historyScroll := app.historyScroll - app.page, followNewest := false }
  | .down =>
    let target := min (app.historyScroll + app.page) counterLimit
    { app with historyScroll := min target app.maxHistoryScroll, followNewest := false }

def press (app : App) (key : Key) : App :=
  let session := app.session.press key
  let pressed := { app with session := session, lastPressed := some key }
  if key = .clear then { pressed with historyScroll := 0 }
  else if session.history.length ≠ app.session.history.length then
    { pressed with followNewest := true }
  else pressed

def apply (app : App) : Action → App
  | .press key => app.press key
  | .scroll direction => app.scrollHistory direction
  | .toggleDetails => { app with detailsShown := !app.detailsShown }
  | .showHelp => { app with helpOpen := true, helpScroll := 0 }
  | .quit => { app with quitting := true }

def scrollHelp (app : App) (lines : Nat) : Direction → App
  | .up => { app with helpScroll := app.helpScroll - lines }
  | .down => { app with helpScroll := min (app.helpScroll + lines) counterLimit }

def handleHelpKey (app : App) : KeyCode → App
  | .down => app.scrollHelp 1 .down
  | .up => app.scrollHelp 1 .up
  | .pageDown => app.scrollHelp 10 .down
  | .pageUp => app.scrollHelp 10 .up
  | .escape | .function 1 => { app with helpOpen := false, helpScroll := 0 }
  | _ => app

def handle (app : App) : TerminalEvent → App
  | .key stroke =>
    if app.helpOpen then app.handleHelpKey stroke.code
    else match Action.ofKeystroke? stroke with
      | some action => app.apply action
      | none => app
  | .wheel direction =>
    if app.helpOpen then app.scrollHelp 3 direction else app.scrollHistory direction
  | .other => app

def clampHelp (app : App) (lines : Nat) : App :=
  { app with helpScroll := min app.helpScroll (lines - 1) }

end App

end Calculator.FullScreen
