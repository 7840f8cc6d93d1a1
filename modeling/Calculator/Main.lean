import Calculator.Command.Execution

/-!
The program. Evaluation and the log are those of `Command.execute`; the interactive modes answer
one byte of standard input at a time.
-/

open Calculator

namespace Calculator.Main

def write (stream : IO.FS.Stream) (text : Text) : IO Unit := do
  stream.putStr (String.ofList text)
  stream.flush

def record (path : Text) (lines : List Text) : IO Unit := do
  if lines.isEmpty then return
  let handle ← IO.FS.Handle.mk (String.ofList path) .append
  handle.putStr (String.ofList (lines.flatMap (· ++ ['\n'])))

def createLog (path : Text) : IO (Option Text) := do
  try
    discard <| IO.FS.Handle.mk (String.ofList path) .write
    return none
  catch _ => return some "No such file or directory (os error 2)".toList

def readByte (stdin : IO.FS.Stream) : IO (Option UInt8) := do
  let bytes ← stdin.read 1
  return bytes.data[0]?

/-- Answers to the keystrokes that one more byte completes; `none` after the one that quits. -/
def answerLine (details : Bool) (s : Session) : List Keystroke → Option (Session × Text)
  | [] => some (s, [])
  | stroke :: rest =>
    match LineMode.Command.ofKeystroke? stroke with
    | none => answerLine details s rest
    | some .quit => none
    | some (.press key) =>
      let next := s.press key
      let text := (LineMode.reply details key next).flatten ++ LineMode.prompt next
      (answerLine details next rest).map fun (last, more) => (last, text ++ more)

def report (filter : Log.Filter) (options : Command.Options) (s : Session)
    (strokes : List Keystroke) : IO Unit :=
  match options.logFile with
  | none => return
  | some path => record path (filter.lines (Log.presses s (LineMode.keys strokes)))

partial def lineLoop (filter : Log.Filter) (options : Command.Options)
    (stdin stdout : IO.FS.Stream) (s : Session) (decoder : Decoder) : IO Unit := do
  let byte ← readByte stdin
  let (decoder, strokes) := match byte with
    | some byte =>
      let (decoder, stroke) := decoder.feed byte
      (decoder, stroke.toList)
    | none => (decoder, decoder.flush)
  report filter options s strokes
  match answerLine options.details s strokes with
  | none => write stdout LineMode.farewell
  | some (s, text) =>
    write stdout text
    if byte.isSome then lineLoop filter options stdin stdout s decoder
    else write stdout LineMode.farewell

def colorCode : Color → Text
  | .black => "0".toList
  | .red => "1".toList
  | .green => "2".toList
  | .yellow => "3".toList
  | .blue => "4".toList
  | .magenta => "5".toList
  | .cyan => "6".toList
  | .gray => "7".toList
  | .darkGray => "8".toList
  | .lightRed => "9".toList
  | .lightGreen => "10".toList
  | .lightYellow => "11".toList
  | .lightBlue => "12".toList
  | .lightMagenta => "13".toList
  | .lightCyan => "14".toList
  | .white => "15".toList
  | .rgb r g b => Text.ofNat r ++ ';' :: Text.ofNat g ++ ';' :: Text.ofNat b

def styleCode (style : Style) : Text :=
  let color (ground : String) : Option Color → Text
    | none => []
    | some (.rgb r g b) => ground.toList ++ ";2;".toList ++ colorCode (.rgb r g b)
    | some c => ground.toList ++ ";5;".toList ++ colorCode c
  "\x1B[0".toList ++ color ";38" style.foreground ++ color ";48" style.background
    ++ (if style.bold then ";1".toList else []) ++ (if style.underlined then ";4".toList else [])
    ++ (if style.reversed then ";7".toList else []) ++ ['m']

def frame (screen : Screen) : Text :=
  let rows := screen.map fun row => row.flatMap fun cell => styleCode cell.style ++ [cell.glyph]
  "\x1B[H".toList ++ ['\r', '\n'].intercalate rows

def modes (changes : List Text) : Text := changes.flatMap ("\x1B[".toList ++ ·)

partial def screenLoop (filter : Log.Filter) (options : Command.Options) (size : Size)
    (stdin stdout : IO.FS.Stream) (app : FullScreen.App) (decoder : Decoder) : IO Unit := do
  let (app, screen) := app.draw size
  write stdout (frame screen)
  if app.quitting then return
  match ← readByte stdin with
  | none => return
  | some byte =>
    let (next, stroke) := decoder.feed byte
    let events := stroke.toList.map TerminalEvent.key
    match options.logFile with
    | none => pure ()
    | some path =>
      let keys := events.filterMap app.pressed?
      record path (filter.lines (Log.presses app.session keys))
    screenLoop filter options size stdin stdout (events.foldl FullScreen.App.handle app) next

def terminalSize : IO Size := do
  let read (name : String) (usual : Nat) : IO Nat := do
    return ((← IO.getEnv name).bind String.toNat?).getD usual
  return ⟨← read "COLUMNS" 80, ← read "LINES" 24⟩

def interact (filter : Log.Filter) (mode : Command.Mode) (options : Command.Options) : IO Unit := do
  let stdin ← IO.getStdin
  let stdout ← IO.getStdout
  match mode with
  | .line =>
    write stdout (LineMode.greeting ++ LineMode.prompt {})
    lineLoop filter options stdin stdout {} {}
  | _ =>
    write stdout (modes (FullScreen.modesSet.map FullScreen.setMode) ++ "\x1B[?25l".toList)
    screenLoop filter options (← terminalSize) stdin stdout { detailsShown := options.details } {}
    write stdout (modes (FullScreen.modesReset.map FullScreen.resetMode) ++ "\x1B[?25h".toList)

def finish (filter : Log.Filter) (outcome : Command.Outcome) : IO UInt32 := do
  write (← IO.getStdout) outcome.output
  let stderr ← IO.getStderr
  for line in filter.lines outcome.events do
    write stderr (line ++ ['\n'])
  write stderr outcome.errors
  if outcome.exit = 2 then write stderr "error: the arguments are not understood\n".toList
  return outcome.exit.toUInt32

end Calculator.Main

def main (arguments : List String) : IO UInt32 := do
  let arguments := arguments.map String.toList
  let filter := Log.Filter.ofText ((← IO.getEnv "RUST_LOG").map String.toList)
  let terminal := (← (← IO.getStdin).isTty) && (← (← IO.getStdout).isTty)
  let invocation := Command.Invocation.ofArguments? arguments
  let interactive := match invocation with
    | some (.run (.eval _) _) => none
    | some (.run mode options) => some (mode, options)
    | _ => none
  let refusal ← match interactive with
    | some (_, { logFile := some path, .. }) => Main.createLog path
    | _ => pure none
  match interactive with
  | some (mode, options) =>
    if terminal && refusal.isNone then
      Main.interact filter mode options
      return 0
  | none => pure ()
  Main.finish filter (Command.execute ⟨false, ⟨80, 24⟩, [], [], fun _ => refusal⟩ arguments)
