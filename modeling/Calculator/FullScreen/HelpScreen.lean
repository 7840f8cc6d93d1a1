import Calculator.Screen.Frame
import Calculator.Screen.Paragraph

namespace Calculator.FullScreen.HelpScreen

def sectionStyle : Style := { foreground := some .cyan, underlined := true }

def lines : List Span :=
  [⟨"Keypad Calculator".toList, { foreground := some .green, bold := true }⟩,
   ⟨[], {}⟩,
   ⟨"Operators (no parentheses, no unary minus):".toList, sectionStyle⟩,
   ⟨"  + : Addition        (e.g., 5+3 = 8)".toList, {}⟩,
   ⟨"  - : Subtraction     (e.g., 10-4 = 6)".toList, {}⟩,
   ⟨"  * : Multiplication  (e.g., 6*7 = 42)".toList, {}⟩,
   ⟨"  / : Division        (e.g., 15/3 = 5, 5/0 = Error)".toList, {}⟩,
   ⟨"  ^ : Power           (e.g., 2^3 = 8)".toList, {}⟩,
   ⟨"  % : Percent, typed as /100 (e.g., 10% = 0.1)".toList, {}⟩,
   ⟨[], {}⟩,
   ⟨"Precedence:".toList, sectionStyle⟩,
   ⟨"  ^ binds tighter than * and /, which bind tighter than + and -".toList, {}⟩,
   ⟨"  Operators of equal rank run left to right: 2^3^2 = 64".toList, {}⟩,
   ⟨[], {}⟩,
   ⟨"Keys:".toList, sectionStyle⟩,
   ⟨"  0-9 .       : Digits and decimal point".toList, {}⟩,
   ⟨"  Enter or =  : Calculate; the result stays as the next input".toList, {}⟩,
   ⟨"  Backspace   : Remove the last character".toList, {}⟩,
   ⟨"  C or Delete : Clear input and history".toList, {}⟩,
   ⟨"  D           : Show or hide the step-by-step details".toList, {}⟩,
   ⟨"  Up/Down     : Scroll history (also PgUp/PgDn, mouse wheel)".toList, {}⟩,
   ⟨"  F1          : Show this help screen".toList, {}⟩,
   ⟨"  Q or Esc    : Quit".toList, {}⟩,
   ⟨[], {}⟩,
   ⟨"Notes:".toList, sectionStyle⟩,
   ⟨"  An operator right after another operator is ignored.".toList, {}⟩,
   ⟨"  Results show at most six decimals.".toList, {}⟩,
   ⟨[], {}⟩,
   ⟨"Esc or F1 closes this screen".toList, { foreground := some .darkGray }⟩]

def frame : Frame where
  glyphs := .double
  style := { foreground := some .yellow }
  title := " Keypad Calculator Help ".toList

def folded (area : Area) : List (List Cell) :=
  lines.flatMap fun line => Paragraph.fold area.inner.width line.cells

def paint (scroll : Nat) (area : Area) (screen : Screen) : Screen :=
  screen.lay area { background := some .black }
    |> frame.paint area
    |> Paragraph.place .left area.inner ((folded area).drop scroll)

end Calculator.FullScreen.HelpScreen
