import Calculator.Text.Basic

namespace Calculator.Command

structure Options where
  details : Bool := false
  logFile : Option Text := none
  deriving DecidableEq, Repr

inductive Mode where
  | fullScreen
  | line
  | eval (expression : Text)
  deriving DecidableEq, Repr

inductive Invocation where
  | version
  | run (mode : Mode) (options : Options)
  deriving DecidableEq, Repr

inductive Subcommand where
  | tui
  | line
  | eval
  deriving DecidableEq, Repr

def Subcommand.ofName? (name : Text) : Option Subcommand :=
  if name = "tui".toList then some tui
  else if name = "line".toList then some line
  else if name = "eval".toList then some eval
  else none

def Options.withDetails? (o : Options) : Option Options :=
  if o.details then none else some { o with details := true }

def Options.withLogFile? (o : Options) (path : Text) : Option Options :=
  if o.logFile.isSome || path.isEmpty then none else some { o with logFile := some path }

/-- Whether an argument reads as an option: a dash with something after it. -/
def looksLikeOption : Text → Bool
  | '-' :: _ :: _ => true
  | _ => false

/-- Options before a subcommand and after it; a log file named after it wins. -/
def Options.merge (outer inner : Options) : Options :=
  ⟨outer.details || inner.details, inner.logFile <|> outer.logFile⟩

def detailsOption : Text := "--details".toList

def logFileOption : Text := "--log-file".toList

def terminator : Text := "--".toList

def attached? (option argument : Text) : Option Text :=
  let opening := option ++ ['=']
  if opening.isPrefixOf argument then some (argument.drop opening.length) else none

def readTail : Options → (positional : List Text) → List Text → Option (Options × List Text)
  | o, positional, [] => some (o, positional)
  | o, positional, argument :: rest =>
    if argument = terminator then some (o, positional ++ rest)
    else if argument = detailsOption then do readTail (← o.withDetails?) positional rest
    else if argument = logFileOption then
      match rest with
      | [] => none
      | path :: rest =>
        if looksLikeOption path then none
        else do readTail (← o.withLogFile? path) positional rest
    else match attached? logFileOption argument with
      | some path => do readTail (← o.withLogFile? path) positional rest
      | none =>
        if looksLikeOption argument then none else readTail o (positional ++ [argument]) rest

def Subcommand.mode? : Subcommand → List Text → Option Mode
  | tui, [] => some .fullScreen
  | line, [] => some .line
  | eval, [expression] => some (.eval expression)
  | _, _ => none

def asksVersion (argument : Text) : Bool :=
  argument = "--version".toList || "-V".toList.isPrefixOf argument

def readHead : Options → List Text → Option Invocation
  | o, [] => some (.run .fullScreen o)
  | o, argument :: rest =>
    if argument = terminator then
      if rest.isEmpty then some (.run .fullScreen o) else none
    else if asksVersion argument then some .version
    else if argument = detailsOption then do readHead (← o.withDetails?) rest
    else if argument = logFileOption then
      match rest with
      | [] => none
      | path :: rest =>
        if looksLikeOption path then none else do readHead (← o.withLogFile? path) rest
    else match attached? logFileOption argument with
      | some path => do readHead (← o.withLogFile? path) rest
      | none => do
        let subcommand ← Subcommand.ofName? argument
        let (inner, positional) ← readTail {} [] rest
        return .run (← subcommand.mode? positional) (o.merge inner)

def Invocation.ofArguments? (arguments : List Text) : Option Invocation :=
  readHead {} arguments

end Calculator.Command
