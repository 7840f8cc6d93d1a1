import Calculator.Screen.Style

namespace Calculator

structure Cell where
  glyph : Char := ' '
  style : Style := {}
  deriving DecidableEq, Repr

def Cell.over (top base : Cell) : Cell := ⟨top.glyph, top.style.over base.style⟩

structure Size where
  width : Nat
  height : Nat
  deriving DecidableEq, Repr

/-- A rectangle of columns `left` to `left + width` and rows `top` to `top + height`. -/
structure Area where
  left : Nat
  top : Nat
  width : Nat
  height : Nat
  deriving DecidableEq, Repr

namespace Area

def ofSize (size : Size) : Area := ⟨0, 0, size.width, size.height⟩

def inner (area : Area) : Area :=
  ⟨area.left + 1, area.top + 1, area.width - 2, area.height - 2⟩

end Area

abbrev Screen := List (List Cell)

namespace Screen

def blank (size : Size) : Screen := List.replicate size.height (List.replicate size.width {})

def change {α : Type} (f : α → α) : (start count : Nat) → List α → List α
  | _, _, [] => []
  | _, 0, xs => xs
  | 0, count + 1, x :: xs => f x :: change f 0 count xs
  | start + 1, count + 1, x :: xs => x :: change f start (count + 1) xs

def paint (area : Area) (f : Cell → Cell) (screen : Screen) : Screen :=
  change (change f area.left area.width) area.top area.height screen

def lay (area : Area) (style : Style) (screen : Screen) : Screen :=
  screen.paint area fun cell => { cell with style := style.over cell.style }

def overlay : (column : Nat) → (cells : List Cell) → List Cell → List Cell
  | _, _, [] => []
  | _, [], row => row
  | 0, cell :: cells, base :: row => cell.over base :: overlay 0 cells row
  | column + 1, cell :: cells, base :: row => base :: overlay column (cell :: cells) row

def write (column row : Nat) (cells : List Cell) (screen : Screen) : Screen :=
  change (overlay column cells) row 1 screen

def writeLines (row : Nat) : List (Nat × List Cell) → Screen → Screen
  | [], screen => screen
  | (column, cells) :: rest, screen => writeLines (row + 1) rest (screen.write column row cells)

end Screen

end Calculator
