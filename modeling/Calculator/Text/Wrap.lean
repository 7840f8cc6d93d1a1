import Calculator.Text.Blank
import Calculator.Text.Width

/-!
Words set in lines of a given width. Each line takes as many words as fit, with one space
between; a word wider than a line is cut into pieces that stand alone. What fits is a matter of the
columns that characters take, whatever those are.
-/

namespace Calculator.Text

/-- Cuts a word into pieces that each take as many characters as fit. `room` is what the piece
being made has left; a character wider than a whole line is a piece by itself. -/
def pieces (columns : Char → Nat) (width : Nat) : (room : Nat) → (piece : Text) → Text → List Text
  | _, piece, [] => if piece.isEmpty then [] else [piece]
  | room, piece, c :: rest =>
    if columns c ≤ room then pieces columns width (room - columns c) (piece ++ [c]) rest
    else
      let closed := if piece.isEmpty then [] else [piece]
      if columns c ≤ width then closed ++ pieces columns width (width - columns c) [c] rest
      else closed ++ [c] :: pieces columns width width [] rest

/-- The lines that words make, the first of them going on from `line`. -/
def fill (columns : Char → Nat) (width : Nat) : (line : Text) → List Text → List Text
  | line, [] => if line.isEmpty then [] else [line]
  | line, word :: rest =>
    if width < word.widthBy columns then
      (if line.isEmpty then [] else [line]) ++ pieces columns width width [] word ++
        fill columns width [] rest
    else if line.isEmpty then fill columns width word rest
    else if line.widthBy columns + 1 + word.widthBy columns ≤ width then
      fill columns width (line ++ ' ' :: word) rest
    else line :: fill columns width word rest

/-- A width of zero leaves room for nothing but one empty line. -/
def wrapBy (columns : Char → Nat) (width : Nat) (text : Text) : List Text :=
  if width = 0 then [[]] else fill columns width [] text.words

def wrap (width : Nat) (text : Text) : List Text := wrapBy charWidth width text

end Calculator.Text
