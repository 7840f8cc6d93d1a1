import Calculator.Command.Arguments
import Calculator.FullScreen.Program
import Calculator.LineMode
import Calculator.Log.Filter
import Calculator.Report
import Calculator.Terminal.Decoder

namespace Calculator.Command

structure Surroundings where
  terminal : Bool
  size : Size
  input : List UInt8
  events : List TerminalEvent
  /-- The reason why a file cannot be created, if it cannot. -/
  refusal : Text → Option Text

structure Outcome where
  exit : Nat := 0
  output : Text := []
  errors : Text := []
  screen : Option Screen := none
  modes : List Text := []
  events : List Log.Event := []

def versionLine : Text := "keypadcalc 0.1.0\n".toList

def failure (cause : Text) : Outcome :=
  { exit := 1, errors := "Error: ".toList ++ cause ++ ['\n'] }

def logFailure? (s : Surroundings) (options : Options) : Option Outcome := do
  let path ← options.logFile
  let reason ← s.refusal path
  return failure ("Failed to create log file ".toList ++ path ++ "\n\nCaused by:\n    ".toList ++
    reason)

/-- Interactive modes report to the log file only. -/
def logged (options : Options) (events : List Log.Event) : List Log.Event :=
  if options.logFile.isSome then events else []

def evaluateOnce (expression : Text) (options : Options) : Outcome :=
  let report := Report.ofExpression expression options.details
  { exit := if report.success then 0 else 1
    output := report.output ++ ['\n']
    events := Log.evaluation expression }

def runLine (s : Surroundings) (options : Options) : Outcome :=
  if s.terminal then
    let strokes := Decoder.keystrokes s.input
    { output := (LineMode.transcript options.details strokes).flatten
      events := logged options (Log.presses {} (LineMode.keys strokes)) }
  else
    { failure "Inappropriate ioctl for device (os error 25)".toList with
      output := LineMode.greeting }

def runFullScreen (s : Surroundings) (options : Options) : Outcome :=
  if s.terminal then
    let app : FullScreen.App := { detailsShown := options.details }
    { screen := some (FullScreen.run s.size app s.events).2
      modes := FullScreen.modeChanges
      events := logged options (Log.presses {} (FullScreen.keys s.size app s.events)) }
  else failure "No such device or address (os error 6)".toList

def run (s : Surroundings) (mode : Mode) (options : Options) : Outcome :=
  match mode with
  | .eval expression => evaluateOnce expression options
  | .line => (logFailure? s options).getD (runLine s options)
  | .fullScreen => (logFailure? s options).getD (runFullScreen s options)

/-- Arguments that cannot be understood end the run with exit code 2. -/
def execute (s : Surroundings) (arguments : List Text) : Outcome :=
  match Invocation.ofArguments? arguments with
  | none => { exit := 2 }
  | some .version => { output := versionLine }
  | some (.run mode options) => run s mode options

end Calculator.Command
