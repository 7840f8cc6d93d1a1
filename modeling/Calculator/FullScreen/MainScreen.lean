import Calculator.FullScreen.HistoryPanel

namespace Calculator.FullScreen

def minWidth : Nat := 50

def minHeight : Nat := 19

def keypadWidth : Nat := 29

def detailsHeight : Nat := 8

def fits (size : Size) : Bool := minWidth ≤ size.width && minHeight ≤ size.height

def displayArea (size : Size) : Area := ⟨0, 0, size.width, 3⟩

def bodyHeight (size : Size) : Nat := size.height - 4

def historyArea (size : Size) (details : Bool) : Area :=
  let height := if details then bodyHeight size - detailsHeight else bodyHeight size
  ⟨keypadWidth, 3, size.width - keypadWidth, height⟩

def detailsArea (size : Size) : Area :=
  ⟨keypadWidth, 3 + (bodyHeight size - detailsHeight), size.width - keypadWidth, detailsHeight⟩

def statusArea (size : Size) : Area := ⟨0, size.height - 1, size.width, 1⟩

namespace MainScreen

/-- The text of the display line; of a long one the end stays in sight. -/
def paintDisplay (session : Session) (area : Area) (screen : Screen) : Screen :=
  let color := match session.display with
    | .error => Color.red
    | .input => Color.white
  let text := session.shown
  let visible : Span := ⟨text.drop (text.length - area.inner.width),
    { foreground := some color, bold := true }⟩
  let frame : Frame := { style := borderStyle }
  Paragraph.place .right area.inner [visible.cells] (frame.paint area screen)

def keyStyle : Key → Style
  | .equals =>
    { foreground := some .white, background := some (.rgb 255 127 80), bold := true }
  | .digit _ => { foreground := some .black, background := some .gray, bold := true }
  | _ => { foreground := some .black, background := some (.rgb 5 153 140), bold := true }

def paintKey (key : Key) (pressed : Bool) (area : Area) (screen : Screen) : Screen :=
  let style := { keyStyle key with reversed := pressed }
  let frame : Frame := { style := { foreground := some .black } }
  screen.lay area style
    |> frame.paint area
    |> Paragraph.place .center area.inner [Span.cells ⟨key.label, style⟩]

/-- The start of part `i` of `length` cells in `count` parts, rounded to the nearest cell. -/
def partStart (length count i : Nat) : Nat := (2 * length * i + count) / (2 * count)

def keyArea (area : Area) (row column : Nat) : Area :=
  let top := partStart area.height 5 row
  let left := partStart area.width 4 column
  ⟨area.left + left, area.top + top, partStart area.width 4 (column + 1) - left,
   partStart area.height 5 (row + 1) - top⟩

def paintKeypad (lastPressed : Option Key) (area : Area) (screen : Screen) : Screen :=
  Key.layout.zipIdx.foldl (fun screen (keys, row) =>
    keys.zipIdx.foldl (fun screen (key, column) =>
      paintKey key (lastPressed == some key) (keyArea area row column) screen) screen) screen

def detailLines (steps : List (Step Float)) : List Span :=
  let style : Style := { foreground := some .darkGray }
  if steps.isEmpty then [⟨"Press = to see each step".toList, style⟩]
  else (Step.listing steps).map fun line => ⟨line, style⟩

def paintDetails (steps : List (Step Float)) (area : Area) (screen : Screen) : Screen :=
  let frame : Frame := { style := borderStyle, title := " Details ".toList }
  let lines := (detailLines steps).flatMap fun line =>
    Paragraph.fold area.inner.width line.cells
  Paragraph.place .left area.inner lines (frame.paint area screen)

def guide : List (Text × Text) :=
  [("Enter/=".toList, "Calculate".toList), ("Bksp".toList, "Undo".toList),
   ("C".toList, "Clear".toList), ("D".toList, "Details".toList), ("F1".toList, "Help".toList),
   ("Q".toList, "Quit".toList)]

def guideSpans : List Span :=
  guide.flatMap fun (key, action) =>
    [⟨key, { foreground := some .yellow, bold := true }⟩,
     ⟨' ' :: action ++ [' '], { foreground := some .darkGray }⟩]

def paint (app : App) (size : Size) (screen : Screen) : Screen :=
  let keypad : Area := ⟨0, 3, keypadWidth, bodyHeight size⟩
  screen
    |> paintDisplay app.session (displayArea size)
    |> paintKeypad app.lastPressed keypad
    |> HistoryPanel.paint app.session.history app.historyScroll (historyArea size app.detailsShown)
    |> (if app.detailsShown then paintDetails app.session.lastSteps (detailsArea size) else id)
    |> Paragraph.place .left (statusArea size) [guideSpans.flatMap Span.cells]

end MainScreen

namespace SmallScreen

def lines (size : Size) : List Span :=
  let dimensions := fun width height => Text.ofNat width ++ 'x' :: Text.ofNat height
  [⟨"Terminal too small! Min size: ".toList ++ dimensions minWidth minHeight ++
      ". Current: ".toList ++ dimensions size.width size.height,
    { foreground := some .red, bold := true }⟩,
   ⟨[], {}⟩,
   ⟨"Please resize your terminal window".toList, { foreground := some .yellow }⟩]

def paint (size : Size) (screen : Screen) : Screen :=
  let area := Area.ofSize size
  let frame : Frame :=
    { style := { foreground := some .red }, title := " Resize Required ".toList }
  let folded := (lines size).flatMap fun line => Paragraph.fold area.inner.width line.cells
  Paragraph.place .center area.inner folded (frame.paint area screen)

end SmallScreen

end Calculator.FullScreen
