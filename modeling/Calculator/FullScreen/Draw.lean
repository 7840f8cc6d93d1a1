import Calculator.FullScreen.HelpScreen
import Calculator.FullScreen.MainScreen

namespace Calculator.FullScreen

def App.settle (app : App) (size : Size) : App :=
  if app.helpOpen then app.clampHelp HelpScreen.lines.length
  else
    let app := { app with tooSmall := !fits size }
    if app.tooSmall then app else app.countHistory (historyArea size app.detailsShown)

def App.screen (app : App) (size : Size) : Screen :=
  let blank := Screen.blank size
  if app.helpOpen then HelpScreen.paint app.helpScroll (Area.ofSize size) blank
  else if app.tooSmall then SmallScreen.paint size blank
  else MainScreen.paint app size blank

def App.draw (app : App) (size : Size) : App × Screen :=
  let settled := app.settle size
  (settled, settled.screen size)

end Calculator.FullScreen
