import Calculator.Screen.Grid
import Calculator.Text.Blank

/-!
Paragraphs: lines of styled text set in an area, cut at its edge or folded at blanks.

Folding keeps the line being made, the blanks after it and the word after those apart, and moves
blanks and word into the line when the word ends. A blank where a line breaks is dropped.
-/

namespace Calculator

inductive Alignment where
  | left
  | center
  | right
  deriving DecidableEq, Repr

def Span.cells (span : Span) : List Cell := span.content.map fun c => ⟨c, span.style⟩

namespace Paragraph

structure Folding where
  line : List Cell := []
  blanks : List Cell := []
  word : List Cell := []
  inWord : Bool := false
  lines : List (List Cell) := []

namespace Folding

/-- Moves the word into the line, with the blanks before it unless it begins the line. -/
def join (f : Folding) : Folding :=
  let line := if f.line.isEmpty then f.word else f.line ++ f.blanks ++ f.word
  { f with line := line, blanks := [], word := [] }

def add (f : Folding) (c : Cell) (blank : Bool) : Folding :=
  if blank then { f with blanks := f.blanks ++ [c], inWord := false }
  else { f with word := f.word ++ [c], inWord := true }

def feed (width : Nat) (f : Folding) (c : Cell) : Folding :=
  let blank := isBlank c.glyph
  let wordEnds := f.inWord && blank
  let overfull := f.line.isEmpty && (width ≤ f.word.length || width ≤ f.blanks.length)
  let f := if wordEnds || overfull then f.join else f
  if width ≤ f.line.length + f.blanks.length + f.word.length then
    let room := width - f.line.length
    let exhausted := decide (f.blanks.length ≤ room)
    let f := { f with line := [], blanks := f.blanks.drop (room + 1), lines := f.line :: f.lines }
    if blank && exhausted then f else f.add c blank
  else f.add c blank

def finish (f : Folding) : List (List Cell) :=
  let lonely := f.line.isEmpty && f.word.isEmpty && !f.blanks.isEmpty
  let lines := if lonely then [] :: f.lines else f.lines
  let last := f.join.line
  let lines := if last.isEmpty then lines else last :: lines
  if lines.isEmpty then [[]] else lines.reverse

end Folding

def fold (width : Nat) (cells : List Cell) : List (List Cell) :=
  (cells.foldl (Folding.feed width) {}).finish

def offset (alignment : Alignment) (width length : Nat) : Nat :=
  match alignment with
  | .left => 0
  | .center => width / 2 - length / 2
  | .right => width - length

def place (alignment : Alignment) (area : Area) (lines : List (List Cell)) (screen : Screen) :
    Screen :=
  let placed := (lines.take area.height).map fun line =>
    let cut := line.take area.width
    (area.left + offset alignment area.width cut.length, cut)
  screen.writeLines area.top placed

end Paragraph

end Calculator
