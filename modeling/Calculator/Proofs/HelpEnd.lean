import Calculator.Proofs.FoldedLines
import Calculator.Proofs.Moments
import Calculator.Proofs.ScreenCells

/-! The end of the help text.

A draw bounds the scroll of the help screen by the number of lines of the text, but the scroll leaves out
lines that these fold to. The last of them comes into the box only if folding adds fewer lines than the
box has rows. -/

namespace Calculator

def TerminalEvent.ScrollsDown : TerminalEvent → Prop
  | .key stroke => stroke.code = .down ∨ stroke.code = .pageDown
  | .wheel direction => direction = .down
  | .other => False

namespace FullScreen

namespace HelpScreen

def closing : Span := ⟨"Esc or F1 closes this screen".toList, { foreground := some .darkGray }⟩

/-- The last line of the text, or the last of those it folds to. -/
def ending (width : Nat) : List Cell := (Paragraph.fold width closing.cells).getLastD []

def lineCell (cells : List Cell) (column : Nat) : Cell :=
  let base : Cell := { style := { background := some .black } }
  cells[column]?.elim base (·.over base)

/-- Some row of the help box shows the last line of the text, and the whole of it. -/
def EndShown (screen : Screen) (size : Size) : Prop :=
  let box := (Area.ofSize size).inner
  (ending box.width).length ≤ box.width ∧ ∃ row < box.height, ∀ column < box.width,
    screen.cell? (box.top + row) (box.left + column) = some (lineCell (ending box.width) column)

theorem lines_pos : 0 < lines.length := Nat.zero_lt_succ _

theorem lines_closing : lines = lines.dropLast ++ [closing] := rfl

theorem lines_length_le : ∀ line ∈ lines, line.content.length ≤ 63 := by
  unfold lines
  repeat rw [String.toList_ofList]
  decide

theorem lines_foreground : ∀ line ∈ lines.dropLast, line.style.foreground ≠ some .darkGray := by
  decide

theorem closing_folded (width : Nat) : Paragraph.fold width closing.cells =
    (Paragraph.fold width closing.cells).dropLast ++ [ending width] := by
  have nonempty := Paragraph.fold_ne_nil width closing.cells
  rw [ending, List.getLastD_eq_getLast?, List.getLast?_eq_some_getLast nonempty, Option.getD_some,
    List.dropLast_concat_getLast nonempty]

/-- Where the closing line is parted, its last part begins unlike the others. -/
structure Parted (width : Nat) : Prop where
  nonempty : ending width ≠ []
  fits : (ending width).length ≤ width
  unlike : ∀ line ∈ (Paragraph.fold width closing.cells).dropLast,
    line.head?.map Cell.glyph ≠ (ending width).head?.map Cell.glyph

theorem parted {width : Nat} (wide : 17 ≤ width) : Parted width := by
  have narrow : ∀ extra < 12, ending (17 + extra) ≠ [] ∧ (ending (17 + extra)).length ≤ 17 + extra ∧
      ∀ line ∈ (Paragraph.fold (17 + extra) closing.cells).dropLast,
        line.head?.map Cell.glyph ≠ (ending (17 + extra)).head?.map Cell.glyph := by
    decide +kernel
  rcases Nat.lt_or_ge width 28 with less | more
  · obtain ⟨extra, rfl⟩ := Nat.exists_eq_add_of_le wide
    obtain ⟨nonempty, fits, unlike⟩ := narrow extra (by omega)
    exact ⟨nonempty, fits, unlike⟩
  -- from the length of the line on it folds as it does at that length
  · have length : closing.cells.length = 28 := by decide +kernel
    have same : Paragraph.fold width closing.cells = Paragraph.fold 28 closing.cells :=
      (Paragraph.fold_of_fits (by omega)).trans (Paragraph.fold_of_fits (by omega)).symm
    have last : ending width = ending 28 := congrArg (List.getLastD · []) same
    obtain ⟨nonempty, fits, unlike⟩ := narrow 11 (by decide)
    constructor
    · rw [last]
      exact nonempty
    · rw [last]
      exact Nat.le_trans fits more
    · rw [last, same]
      exact unlike

def earlier (area : Area) : List (List Cell) :=
  (lines.dropLast.flatMap fun line => Paragraph.fold area.inner.width line.cells) ++
    (Paragraph.fold area.inner.width closing.cells).dropLast

theorem folded_eq (area : Area) : folded area = earlier area ++ [ending area.inner.width] := by
  rw [folded, lines_closing, List.flatMap_append, List.flatMap_singleton, closing_folded, earlier,
    List.append_assoc]

theorem length_folded (area : Area) : (folded area).length = (earlier area).length + 1 := by
  rw [folded_eq, List.length_append, List.length_singleton]

theorem length_lines_le (area : Area) : lines.length ≤ (folded area).length :=
  Paragraph.length_le_flatMap_fold area.inner.width lines

theorem length_folded_wide {area : Area} (wide : 63 ≤ area.inner.width) :
    (folded area).length = lines.length := by
  apply Paragraph.length_flatMap_fold
  intro line member
  exact Nat.le_trans (lines_length_le line member) wide

theorem length_lines_lt {area : Area} (narrow : area.inner.width = 17) :
    lines.length < (folded area).length := by
  have others := Paragraph.length_le_flatMap_fold 17 lines.dropLast
  have part : (Paragraph.fold 17 closing.cells).dropLast.length = 1 := by decide +kernel
  rw [List.length_dropLast] at others
  rw [length_folded, earlier, narrow, List.length_append, part]
  omega

theorem lineCell_foreground (c : Cell) (rest : List Cell) :
    (lineCell (c :: rest) 0).style.foreground = c.style.foreground := by
  change (c.style.foreground <|> none) = c.style.foreground
  cases c.style.foreground <;> rfl

theorem foreground_of_mem_fold {width : Nat} {span : Span} {line : List Cell}
    (member : line ∈ Paragraph.fold width span.cells) : ∀ c ∈ line,
      c.style.foreground = span.style.foreground := by
  intro c inside
  obtain ⟨_, _, rfl⟩ := List.mem_map.mp (Paragraph.mem_of_fold member c inside)
  rfl

theorem lineCell_unlike {area : Area} (wide : 17 ≤ area.inner.width) :
    ∀ line ∈ [] :: earlier area, lineCell line 0 ≠ lineCell (ending area.inner.width) 0 := by
  obtain ⟨nonempty, _, unlike⟩ := parted wide
  have folds : ending area.inner.width ∈ Paragraph.fold area.inner.width closing.cells := by
    rw [closing_folded]
    exact List.mem_append_right _ (List.mem_singleton_self _)
  obtain ⟨first, rest, last⟩ := List.exists_cons_of_ne_nil nonempty
  rw [last] at folds unlike ⊢
  have dark : first.style.foreground = some .darkGray :=
    foreground_of_mem_fold folds first List.mem_cons_self
  intro line member same
  have alike : (lineCell line 0).style.foreground = some .darkGray := by
    rw [same, lineCell_foreground, dark]
  -- blanks and other lines have another colour, parts of the closing line another letter
  cases line with
  | nil => cases alike
  | cons c cells =>
      rw [lineCell_foreground] at alike
      have listed : c :: cells ∈ earlier area := by simpa using member
      rcases List.mem_append.mp listed with other | part
      · obtain ⟨span, present, own⟩ := List.mem_flatMap.mp other
        rw [foreground_of_mem_fold own c List.mem_cons_self] at alike
        exact lines_foreground span present alike
      · have glyph : (lineCell (c :: cells) 0).glyph = (lineCell (first :: rest) 0).glyph :=
          congrArg Cell.glyph same
        exact unlike _ part (congrArg some glyph)

theorem cell?_paint {scroll row column : Nat} {area : Area} {screen : Screen}
    (low : row < area.inner.height) (right : column < area.inner.width)
    (blank : screen.cell? (area.inner.top + row) (area.inner.left + column) = some {}) :
    (paint scroll area screen).cell? (area.inner.top + row) (area.inner.left + column) =
      some (lineCell ((folded area)[scroll + row]?.getD []) column) := by
  have inside : area.inner.Contains (area.inner.top + row) (area.inner.left + column) := by
    simp only [Area.Contains]
    omega
  have high : 0 < area.height := by
    simp only [Area.inner] at low
    omega
  have wide : 0 < area.width := by
    simp only [Area.inner] at right
    omega
  rw [paint, Paragraph.cell?_place inside, frame.cell?_paint high wide (fun edge => edge.2 inside),
    Screen.lay, Screen.cell?_paint, if_pos (Area.contains_of_inner inside), blank,
    Nat.add_sub_cancel_left, Nat.add_sub_cancel_left, List.getElem?_drop]
  rfl

end HelpScreen

namespace App

variable {app : App}

def scrolled (app : App) (size : Size) (events : List TerminalEvent) : App :=
  events.foldl (fun app event => (app.handle event).settle size) app

/-- After enough events that scroll down, and however many follow, the box shows the last line. -/
def ReachesHelpEnd (app : App) (size : Size) : Prop :=
  ∃ enough, ∀ events : List TerminalEvent, (∀ event ∈ events, event.ScrollsDown) →
    enough ≤ events.length → HelpScreen.EndShown ((app.scrolled size events).screen size) size

section

variable (shown : app.helpOpen = true)
include shown

theorem handle_scrollsDown {event : TerminalEvent} (down : event.ScrollsDown) :
    ∃ count, 0 < count ∧ app.handle event = app.scrollHelp count .down := by
  cases event with
  | key stroke =>
      have opened : app.handle (.key stroke) = app.handleHelpKey stroke.code := if_pos shown
      rcases down with single | page
      · exact ⟨1, by decide, by rw [opened, single, handleHelpKey]⟩
      · exact ⟨10, by decide, by rw [opened, page, handleHelpKey]⟩
  | wheel direction =>
      cases down
      exact ⟨3, by decide, if_pos shown⟩
  | other => cases down

theorem settle_help (size : Size) : app.settle size = app.clampHelp HelpScreen.lines.length :=
  if_pos shown

theorem scrolled_helpScroll (size : Size) {events : List TerminalEvent}
    (down : ∀ event ∈ events, event.ScrollsDown) :
    (app.scrolled size events).helpOpen = true ∧
      min (app.helpScroll + events.length) (HelpScreen.lines.length - 1) ≤
        (app.scrolled size events).helpScroll ∧
      (events ≠ [] → (app.scrolled size events).helpScroll < HelpScreen.lines.length) := by
  -- each event scrolls by a line at least, and each draw bounds the scroll
  induction events using List.reverseRecOn with
  | nil => exact ⟨shown, Nat.min_le_left _ _, fun some => absurd rfl some⟩
  | append_singleton events event ih =>
      obtain ⟨before, last⟩ := List.forall_mem_append.mp down
      obtain ⟨opened, reached, _⟩ := ih before
      obtain ⟨count, positive, handled⟩ :=
        handle_scrollsDown opened (List.forall_mem_singleton.mp last)
      have step : app.scrolled size (events ++ [event]) =
          ((app.scrolled size events).scrollHelp count .down).clampHelp HelpScreen.lines.length := by
        rw [scrolled, List.foldl_append]
        change ((app.scrolled size events).handle event).settle size = _
        rw [handled]
        have still : ((app.scrolled size events).scrollHelp count .down).helpOpen = true := opened
        exact settle_help still size
      have some := HelpScreen.lines_pos
      have room : HelpScreen.lines.length ≤ counterLimit := by decide
      rw [step, List.length_append, List.length_singleton]
      simp only [scrollHelp, clampHelp]
      exact ⟨opened, by omega, by omega⟩

theorem scrolled_to_last (size : Size) {events : List TerminalEvent}
    (down : ∀ event ∈ events, event.ScrollsDown) (many : HelpScreen.lines.length ≤ events.length) :
    (app.scrolled size events).helpScroll = HelpScreen.lines.length - 1 := by
  have some := HelpScreen.lines_pos
  obtain ⟨_, least, most⟩ := scrolled_helpScroll shown size down
  have last := most (List.ne_nil_of_length_pos (by omega))
  omega

theorem cell?_help {size : Size} {row column : Nat}
    (low : row < (Area.ofSize size).inner.height) (right : column < (Area.ofSize size).inner.width) :
    (app.screen size).cell? ((Area.ofSize size).inner.top + row) ((Area.ofSize size).inner.left + column) =
      some (HelpScreen.lineCell
        ((HelpScreen.folded (Area.ofSize size))[app.helpScroll + row]?.getD []) column) := by
  simp only [screen, shown, if_true]
  apply HelpScreen.cell?_paint low right
  simp only [Area.inner, Area.ofSize] at low right ⊢
  exact Screen.cell?_blank (by omega) (by omega)

theorem endShown_iff {size : Size} (wide : 19 ≤ size.width)
    (scrolled : app.helpScroll < HelpScreen.lines.length) :
    HelpScreen.EndShown (app.screen size) size ↔
      (HelpScreen.folded (Area.ofSize size)).length ≤
        app.helpScroll + (Area.ofSize size).inner.height := by
  have broad : 17 ≤ (Area.ofSize size).inner.width := by
    simp only [Area.ofSize, Area.inner]
    omega
  have long := HelpScreen.length_lines_le (Area.ofSize size)
  have count := HelpScreen.length_folded (Area.ofSize size)
  have unlike := HelpScreen.lineCell_unlike broad
  rw [count]
  constructor
  · rintro ⟨_, row, low, same⟩
    have first := same 0 (by omega)
    rw [cell?_help shown low (by omega), Option.some.injEq, HelpScreen.folded_eq] at first
    -- the line of the row is none of the earlier ones, nor is there none
    by_contra more
    apply unlike _ _ first
    rw [List.getElem?_append_left (by omega), List.getElem?_eq_getElem (by omega)]
    exact List.mem_cons_of_mem _ (List.getElem_mem _)
  · intro enough
    refine ⟨(HelpScreen.parted broad).fits, (HelpScreen.earlier (Area.ofSize size)).length - app.helpScroll,
      by omega, fun column right => ?_⟩
    have row : app.helpScroll + ((HelpScreen.earlier (Area.ofSize size)).length - app.helpScroll) =
        (HelpScreen.earlier (Area.ofSize size)).length := by omega
    rw [cell?_help shown (by omega) right, row, HelpScreen.folded_eq,
      List.getElem?_append_right (Nat.le_refl _), Nat.sub_self]
    rfl

theorem reachesHelpEnd_iff {size : Size} (wide : 19 ≤ size.width) :
    app.ReachesHelpEnd size ↔ (HelpScreen.folded (Area.ofSize size)).length <
      HelpScreen.lines.length + (Area.ofSize size).inner.height := by
  have bottom (events : List TerminalEvent) (down : ∀ event ∈ events, event.ScrollsDown)
      (many : HelpScreen.lines.length ≤ events.length) :
      HelpScreen.EndShown ((app.scrolled size events).screen size) size ↔
        (HelpScreen.folded (Area.ofSize size)).length <
          HelpScreen.lines.length + (Area.ofSize size).inner.height := by
    have last := scrolled_to_last shown size down many
    have some := HelpScreen.lines_pos
    rw [endShown_iff (scrolled_helpScroll shown size down).1 wide (by omega), last]
    omega
  constructor
  · rintro ⟨enough, reached⟩
    have down : ∀ event ∈ List.replicate (enough + HelpScreen.lines.length)
        (TerminalEvent.wheel .down), event.ScrollsDown := by
      intro event member
      rw [List.eq_of_mem_replicate member]
      rfl
    apply (bottom _ down _).mp (reached _ down _)
    · rw [List.length_replicate]
      exact Nat.le_add_left _ _
    · rw [List.length_replicate]
      exact Nat.le_add_right _ _
  · exact fun few => ⟨_, fun events down many => (bottom events down many).mpr few⟩

end

theorem endShown_draw {size : Size} (wide : 19 ≤ size.width) {app : App} (shown : app.helpOpen = true)
    (ends : HelpScreen.EndShown (app.draw size).2 size) :
    (HelpScreen.folded (Area.ofSize size)).length <
      HelpScreen.lines.length + (Area.ofSize size).inner.height := by
  have settled := settle_help shown size
  have opened : (app.settle size).helpOpen = true := by
    rw [settled]
    exact shown
  have some := HelpScreen.lines_pos
  have bound : (app.settle size).helpScroll < HelpScreen.lines.length := by
    simp only [settled, clampHelp]
    omega
  change HelpScreen.EndShown ((app.settle size).screen size) size at ends
  rw [endShown_iff opened wide bound] at ends
  omega

/-- Scrolling down ends with the last line of the text in the box, for good, if folding adds fewer lines
than the box has rows; otherwise no draw shows that line. -/
theorem help_end_laws {app : App} (shown : app.helpOpen = true) {size : Size}
    (wide : 19 ≤ size.width) (high : 3 ≤ size.height) :
    let box := (Area.ofSize size).inner
    let folded := HelpScreen.folded (Area.ofSize size)
    (app.ReachesHelpEnd size ↔ folded.length < HelpScreen.lines.length + box.height) ∧
      (∀ other : App, other.helpOpen = true → HelpScreen.EndShown (other.draw size).2 size →
        folded.length < HelpScreen.lines.length + box.height) ∧
      (∀ events : List TerminalEvent, (∀ event ∈ events, event.ScrollsDown) →
        HelpScreen.lines.length ≤ events.length →
          (app.scrolled size events).helpScroll = HelpScreen.lines.length - 1) ∧
      (65 ≤ size.width → app.ReachesHelpEnd size) := by
  intro box folded
  refine ⟨reachesHelpEnd_iff shown wide, fun other => endShown_draw wide,
    fun events => scrolled_to_last shown size, ?_⟩
  intro broad
  rw [reachesHelpEnd_iff shown wide, HelpScreen.length_folded_wide]
  · simp only [Area.inner, Area.ofSize]
    omega
  · simp only [Area.inner, Area.ofSize]
    omega

theorem help_end_in_one_row :
    let app := after false [.key (.function 1)]
    app.helpOpen = true ∧ app.ReachesHelpEnd ⟨65, 3⟩ ∧
      (app.scrolled ⟨65, 3⟩ (List.replicate 29 (.wheel .down))).helpScroll = 28 := by
  intro app
  have shown : app.helpOpen = true := by decide +kernel
  have wide : 19 ≤ (⟨65, 3⟩ : Size).width := by decide
  obtain ⟨_, _, bottom, reached⟩ := help_end_laws shown wide (by decide)
  refine ⟨shown, reached (by decide), bottom _ ?_ (by decide)⟩
  intro event member
  rw [List.eq_of_mem_replicate member]
  rfl

/-- In a box of one row and 17 columns the closing line is out of reach: eight pages, ten lines each,
are more than the text folds to, but they leave out no more than 28 lines. -/
theorem help_end_out_of_reach :
    let app := after false [.key (.function 1)]
    let pages := List.replicate 8 (TerminalEvent.key { code := .pageDown })
    app.helpOpen = true ∧ (∀ event ∈ pages, event.ScrollsDown) ∧
      (app.scrolled ⟨19, 3⟩ pages).helpScroll = 28 ∧
      ¬ HelpScreen.EndShown ((app.scrolled ⟨19, 3⟩ pages).screen ⟨19, 3⟩) ⟨19, 3⟩ ∧
      ¬ app.ReachesHelpEnd ⟨19, 3⟩ := by
  intro app pages
  have shown : app.helpOpen = true := by decide +kernel
  have down : ∀ event ∈ pages, event.ScrollsDown := by
    intro event member
    rw [List.eq_of_mem_replicate member]
    exact Or.inr rfl
  have scroll : (app.scrolled ⟨19, 3⟩ pages).helpScroll = 28 := by decide +kernel
  have more := @HelpScreen.length_lines_lt (Area.ofSize ⟨19, 3⟩) rfl
  refine ⟨shown, down, scroll, ?_, ?_⟩
  · have opened := (scrolled_helpScroll shown ⟨19, 3⟩ down).1
    have bound : (app.scrolled ⟨19, 3⟩ pages).helpScroll < HelpScreen.lines.length := by
      rw [scroll]
      decide
    rw [endShown_iff opened (by decide) bound, scroll]
    exact Nat.not_le.mpr more
  · rw [reachesHelpEnd_iff shown (by decide)]
    exact Nat.not_lt.mpr more

end App

end FullScreen

end Calculator
