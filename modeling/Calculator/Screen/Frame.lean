import Calculator.Screen.Grid

namespace Calculator

structure BorderGlyphs where
  horizontal : Char
  vertical : Char
  topLeft : Char
  topRight : Char
  bottomLeft : Char
  bottomRight : Char

def BorderGlyphs.plain : BorderGlyphs := ⟨'─', '│', '┌', '┐', '└', '┘'⟩

def BorderGlyphs.double : BorderGlyphs := ⟨'═', '║', '╔', '╗', '╚', '╝'⟩

structure Frame where
  glyphs : BorderGlyphs := .plain
  style : Style
  title : Text := []

namespace Frame

def border (frame : Frame) (area : Area) (screen : Screen) : Screen :=
  let put := fun (part : Area) (glyph : Char) (screen : Screen) =>
    screen.paint part (Cell.over ⟨glyph, frame.style⟩)
  let right := area.left + area.width - 1
  let bottom := area.top + area.height - 1
  screen
    |> put { area with width := 1 } frame.glyphs.vertical
    |> put { area with height := 1 } frame.glyphs.horizontal
    |> put { area with left := right, width := 1 } frame.glyphs.vertical
    |> put { area with top := bottom, height := 1 } frame.glyphs.horizontal
    |> put ⟨right, bottom, 1, 1⟩ frame.glyphs.bottomRight
    |> put ⟨right, area.top, 1, 1⟩ frame.glyphs.topRight
    |> put ⟨area.left, bottom, 1, 1⟩ frame.glyphs.bottomLeft
    |> put ⟨area.left, area.top, 1, 1⟩ frame.glyphs.topLeft

def paint (frame : Frame) (area : Area) (screen : Screen) : Screen :=
  let column := area.left + (area.width - frame.title.length) / 2
  let title := (frame.title.take (area.width - 2)).map fun c => ({ glyph := c } : Cell)
  (frame.border area screen).write column area.top title

end Frame

end Calculator
