namespace Calculator

inductive KeyCode where
  | char (c : Char)
  | enter
  | backspace
  | delete
  | insert
  | tab
  | backTab
  | up
  | down
  | left
  | right
  | home
  | endKey
  | pageUp
  | pageDown
  | escape
  | null
  | function (n : Nat)
  deriving DecidableEq, Repr

structure Modifiers where
  shift : Bool := false
  control : Bool := false
  alt : Bool := false
  super : Bool := false
  deriving DecidableEq, Repr

structure Keystroke where
  code : KeyCode
  modifiers : Modifiers := {}
  deriving DecidableEq, Repr

inductive Direction where
  | up
  | down
  deriving DecidableEq, Repr

/-- An event of the terminal; `other` is one that nothing answers to: a key let go, a click, a
move of the mouse, a change of focus. -/
inductive TerminalEvent where
  | key (stroke : Keystroke)
  | wheel (direction : Direction)
  | other
  deriving DecidableEq, Repr

end Calculator
