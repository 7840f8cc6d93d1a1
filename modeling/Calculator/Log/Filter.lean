import Calculator.Log

/-!
Filters for log lines, written as directives with commas between. A directive is a level, a
target, or `target=level`; it governs the events whose target begins with its own, and of
several the one with the longest target decides.
-/

namespace Calculator.Log

/-- `finest` is the rank of the finest level shown; 0 shows nothing. -/
structure Directive where
  target : Text
  finest : Nat
  deriving DecidableEq, Repr

abbrev Filter := List Directive

def rankOfName? (name : Text) : Option Nat :=
  let lower := name.map Char.toLower
  [("off", 0), ("error", 1), ("warn", 2), ("info", 3), ("debug", 4), ("trace", 5)].findSome?
    fun (word, rank) =>
      if lower = word.toList ∨ lower = Text.ofNat rank then some rank else none

def isTargetChar (c : Char) : Bool := c.isAlphanum || c == '_' || c == ':' || c == '-'

def Directive.ofText? (text : Text) : Option Directive :=
  let target := text.takeWhile (· != '=')
  let level := (text.dropWhile (· != '=')).drop 1
  if !text.contains '=' then
    match rankOfName? text with
    | some rank => some ⟨[], rank⟩
    | none => if text.all isTargetChar then some ⟨text, Level.trace.rank⟩ else none
  else if target.isEmpty || !target.all isTargetChar then none
  else if level.isEmpty then some ⟨target, Level.trace.rank⟩
  else (rankOfName? level).map fun rank => ⟨target, rank⟩

def directiveTexts (text : Text) : List Text :=
  (text.splitOn ',').filter (!·.isEmpty)

/-- Directives that cannot be read, like none given, leave warnings and errors; an empty list of
them leaves errors. -/
def Filter.ofText (text : Option Text) : Filter :=
  match text with
  | none => [⟨[], Level.warn.rank⟩]
  | some text =>
    match (directiveTexts text).mapM Directive.ofText? with
    | none => [⟨[], Level.warn.rank⟩]
    | some [] => [⟨[], Level.error.rank⟩]
    | some directives => directives

/-- The rank that a filter shows of a target: that of the longest directive, the last of equals. -/
def Filter.finest (filter : Filter) (target : Text) : Nat :=
  let governing := filter.filter fun d => d.target.isPrefixOf target
  (governing.foldl (fun (best : Directive) d =>
    if best.target.length ≤ d.target.length then d else best) ⟨[], 0⟩).finest

def Filter.shows (filter : Filter) (e : Event) : Bool :=
  e.level.rank ≤ filter.finest e.target

def Filter.lines (filter : Filter) (events : List Event) : List Text :=
  (events.filter filter.shows).map Event.line

end Calculator.Log
