import Calculator.Expression.Highlight
import Calculator.Expression.Spacing
import Calculator.FullScreen.App
import Calculator.Screen.Frame
import Calculator.Screen.ItemList
import Calculator.Text.Wrap

namespace Calculator.FullScreen

def borderStyle : Style := { foreground := some .darkGray }

namespace HistoryPanel

def marker (first : Bool) : Span :=
  if first then ⟨"> ".toList, { foreground := some .green }⟩ else ⟨"  ".toList, {}⟩

def resultSpans (result : Text) : List Span :=
  [⟨" = ".toList, { foreground := some .gray }⟩,
   ⟨result, { foreground := some .lightMagenta, bold := true }⟩]

def itemsOfLines (result : Text) (lines : List Text) : List (List Span) :=
  lines.mapIdx fun i line =>
    let closing := if i + 1 = lines.length then resultSpans result else []
    marker (i == 0) :: Highlight.spans { foreground := some .cyan } line ++ closing

def entryItems (width : Nat) (entry : Entry) : List (List Span) :=
  itemsOfLines entry.result (Text.wrap width (spaced entry.expression))

def items (width : Nat) (history : History) : List (List Span) :=
  history.flatMap (entryItems width)

/-- The width that expressions wrap at: the panel inside its border, less the marker. -/
def wrapWidth (area : Area) : Nat := area.inner.width - 2

def frame : Frame := { style := borderStyle, title := " History ".toList }

/-- The frame and the list of the items, which takes the scroll for its offset. -/
def paint (history : History) (scroll : Nat) (area : Area) (screen : Screen) : Screen :=
  let framed := frame.paint area screen
  if history.isEmpty then
    let style : Style := { foreground := some .darkGray }
    let note : Span := ⟨"No calculations yet.".toList, style⟩
    (framed.lay area.inner style) |> Paragraph.place .center area.inner [note.cells]
  else
    let lines := (items (wrapWidth area) history).map (·.flatMap Span.cells)
    ItemList.paint { items := lines, offset := scroll } area.inner framed

end HistoryPanel

/-- What drawing the history panel leaves in the counters. An empty history is not counted. -/
def App.countHistory (app : App) (area : Area) : App :=
  let app := { app with listHeight := area.inner.height }
  if app.session.history.isEmpty then app
  else
    let lines := (HistoryPanel.items (HistoryPanel.wrapWidth area) app.session.history).length
    let app := { app with historyLines := lines }
    if app.followNewest then
      { app with historyScroll := app.maxHistoryScroll, followNewest := false }
    else { app with historyScroll := min app.historyScroll app.maxHistoryScroll }

end Calculator.FullScreen
