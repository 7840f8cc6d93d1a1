import Calculator.Proofs.HistoryScroll
import Calculator.Proofs.ScreenCells

/-! What the rows of the history panel show.

The panel stands beside the keypad, below the display line and above the details, and none of these
paints on it. Its list is given the scroll for an offset but no selection, so it begins with the first
item whatever the scroll. -/

namespace Calculator.FullScreen

namespace MainScreen

theorem partStart_lt {length count : Nat} (enough : count ≤ length) (positive : 0 < count) (i : Nat) :
    partStart length count i < partStart length count (i + 1) := by
  have parts : 0 < 2 * count := Nat.mul_pos (by decide) positive
  calc partStart length count i
    _ < partStart length count i + 1 := Nat.lt_succ_self _
    _ = (2 * length * i + count + 2 * count) / (2 * count) := (Nat.add_div_right _ parts).symm
    _ ≤ partStart length count (i + 1) := by
      refine Nat.div_le_div_right ?_
      rw [Nat.mul_succ]
      omega

theorem partStart_le {length count i : Nat} (part : i ≤ count) (positive : 0 < count) :
    partStart length count i ≤ length := by
  have parts : 0 < 2 * count := Nat.mul_pos (by decide) positive
  have whole : length * i ≤ length * count := Nat.mul_le_mul_left length part
  refine Nat.le_of_lt_succ ((Nat.div_lt_iff_lt_mul parts).mpr ?_)
  calc 2 * length * i + count
    _ = 2 * (length * i) + count := by rw [Nat.mul_assoc]
    _ < 2 * (length * count) + 2 * count := by omega
    _ = (length + 1) * (2 * count) := by ring

section

variable {area : Area}

theorem keyArea_positive (high : 5 ≤ area.height) (wide : 4 ≤ area.width) (row column : Nat) :
    0 < (keyArea area row column).height ∧ 0 < (keyArea area row column).width :=
  ⟨Nat.sub_pos_of_lt (partStart_lt high (by decide) row),
    Nat.sub_pos_of_lt (partStart_lt wide (by decide) column)⟩

theorem keyArea_inside (high : 5 ≤ area.height) (wide : 4 ≤ area.width) {row column : Nat}
    (low : row < 5) (right : column < 4) (i j : Nat)
    (member : (keyArea area row column).Contains i j) : area.Contains i j := by
  have rows : partStart area.height 5 (row + 1) ≤ area.height := partStart_le low (by decide)
  have columns : partStart area.width 4 (column + 1) ≤ area.width := partStart_le right (by decide)
  have first := partStart_lt high (by decide) row
  have second := partStart_lt wide (by decide) column
  simp only [Area.Contains, keyArea] at member ⊢
  omega

theorem paintKey_keeps (key : Key) (pressed : Bool) (high : 0 < area.height) (wide : 0 < area.width)
    (screen : Screen) : Screen.Keeps area screen (paintKey key pressed area screen) :=
  (Screen.lay_keeps area _ screen).trans (Frame.filled_keeps high wide _ _ _ _)

theorem paintKeypad_keeps (lastPressed : Option Key) (high : 5 ≤ area.height) (wide : 4 ≤ area.width)
    (screen : Screen) : Screen.Keeps area screen (paintKeypad lastPressed area screen) := by
  have four : ∀ keys ∈ Key.layout, keys.length = 4 := by decide
  apply Screen.keeps_foldl
  rintro ⟨keys, row⟩ present screen
  apply Screen.keeps_foldl
  rintro ⟨key, column⟩ listed screen
  have low : row < 5 := List.snd_lt_of_mem_zipIdx present
  have right : column < 4 := by
    rw [← four keys (List.fst_mem_of_mem_zipIdx present)]
    exact List.snd_lt_of_mem_zipIdx listed
  obtain ⟨tall, broad⟩ := keyArea_positive high wide row column
  exact (paintKey_keeps key _ tall broad screen).mono (keyArea_inside high wide low right)

theorem paintDisplay_keeps (session : Session) (high : 0 < area.height) (wide : 0 < area.width)
    (screen : Screen) : Screen.Keeps area screen (paintDisplay session area screen) :=
  Frame.filled_keeps high wide _ _ _ _

theorem paintDetails_keeps (steps : List (Step Float)) (high : 0 < area.height)
    (wide : 0 < area.width) (screen : Screen) :
    Screen.Keeps area screen (paintDetails steps area screen) :=
  Frame.filled_keeps high wide _ _ _ _

end

end MainScreen

namespace HistoryPanel

def itemCell (items : List (List Span)) (number column : Nat) : Cell :=
  ((items[number]?.getD []).flatMap Span.cells)[column]?.getD {}

/-- The rows of an area show the items numbered from `first` on. -/
def Shows (screen : Screen) (area : Area) (items : List (List Span)) (first : Nat) : Prop :=
  ∀ row < area.height, ∀ column < area.width,
    screen.cell? (area.top + row) (area.left + column) = some (itemCell items (first + row) column)

def HasRow (screen : Screen) (area : Area) (items : List (List Span)) (number : Nat) : Prop :=
  ∃ row < area.height, ∀ column < area.width,
    screen.cell? (area.top + row) (area.left + column) = some (itemCell items number column)

/-- In this many columns every item can be told from the others and from the blank after them. -/
def Distinct (items : List (List Span)) (width : Nat) : Prop :=
  ∀ first < items.length, ∀ second ≤ items.length,
    (∀ column < width, itemCell items first column = itemCell items second column) → first = second

instance (items : List (List Span)) (width : Nat) : Decidable (Distinct items width) :=
  inferInstanceAs (Decidable (∀ first < items.length, ∀ second ≤ items.length, _ → _))

theorem itemCell_past {items : List (List Span)} {number : Nat} (past : items.length ≤ number) :
    itemCell items number = itemCell items items.length := by
  funext column
  simp [itemCell, List.getElem?_eq_none past]

theorem Shows.keeps {area other : Area} {before after : Screen} {items : List (List Span)}
    {first : Nat} (shown : Shows before area items first) (keeps : Screen.Keeps other before after)
    (apart : ∀ row column, area.Contains row column → ¬ other.Contains row column) :
    Shows after area items first := by
  intro row low column right
  rw [keeps _ _ (apart _ _ (by simp only [Area.Contains]; omega))]
  exact shown row low column right

section

variable {screen : Screen} {area : Area} {items : List (List Span)} {number : Nat}
  (shown : Shows screen area items 0) (distinct : Distinct items area.width)
  (listed : number < items.length)
include shown distinct listed

theorem Shows.hasRow_iff : HasRow screen area items number ↔ number < area.height := by
  constructor
  · rintro ⟨row, low, same⟩
    have alike : ∀ column < area.width, itemCell items number column = itemCell items row column := by
      intro column right
      have seen := shown row low column right
      rw [same column right, Nat.zero_add] at seen
      exact Option.some.inj seen
    by_cases further : row ≤ items.length
    · rw [distinct number listed row further alike]
      exact low
    · rw [itemCell_past (Nat.le_of_not_le further)] at alike
      exact absurd (distinct number listed items.length (Nat.le_refl _) alike) (Nat.ne_of_lt listed)
  · intro low
    refine ⟨number, low, fun column right => ?_⟩
    rw [shown number low column right, Nat.zero_add]

theorem Shows.iff_first (high : 0 < area.height) :
    Shows screen area items number ↔ number = 0 := by
  constructor
  · intro other
    have alike : ∀ column < area.width, itemCell items number column = itemCell items 0 column := by
      intro column right
      have seen := other 0 high column right
      rw [shown 0 high column right] at seen
      exact (Option.some.inj seen).symm
    exact distinct number listed 0 (Nat.zero_le _) alike
  · rintro rfl
    exact shown

end

theorem paint_shows {history : History} (recorded : history ≠ []) (scroll : Nat) {area : Area}
    {screen : Screen} (blank : ∀ row column, area.inner.Contains row column →
      screen.cell? row column = some {}) :
    Shows (paint history scroll area screen) area.inner (items (wrapWidth area) history) 0 := by
  intro row low column right
  have inside : area.inner.Contains (area.inner.top + row) (area.inner.left + column) := by
    simp only [Area.Contains]
    omega
  have kept : (frame.paint area screen).cell? (area.inner.top + row) (area.inner.left + column) =
      some {} := by
    rw [frame.cell?_paint ?_ ?_ (fun edge => edge.2 inside)]
    · exact blank _ _ inside
    · simp only [Area.inner] at low
      omega
    · simp only [Area.inner] at right
      omega
  unfold paint
  dsimp only
  rw [if_neg (by simpa using recorded), ItemList.paint, ItemList.top_of_unselected rfl,
    List.drop_zero, Paragraph.cell?_place inside, kept, Nat.add_sub_cancel_left,
    Nat.add_sub_cancel_left, Nat.zero_add, Option.map_some, itemCell, List.getElem?_map]
  cases (items (wrapWidth area) history)[row]? with
  | none => rfl
  | some item =>
      simp only [Option.map_some, Option.getD_some]
      cases (item.flatMap Span.cells)[column]? with
      | none => rfl
      | some cell => exact congrArg some cell.over_blank

end HistoryPanel

theorem fits_iff {size : Size} : fits size = true ↔ 50 ≤ size.width ∧ 19 ≤ size.height :=
  (Bool.and_eq_true _ _).to_iff.trans (and_congr decide_eq_true_iff decide_eq_true_iff)

theorem inner_height_pos {size : Size} (fit : fits size = true) (details : Bool) :
    0 < (historyArea size details).inner.height := by
  obtain ⟨_, high⟩ := fits_iff.mp fit
  simp only [historyArea, Area.inner, bodyHeight, detailsHeight]
  split_ifs <;> omega

namespace App

variable {app : App} {size : Size}

theorem screen_shows (main : app.helpOpen = false) (large : app.tooSmall = false)
    (fit : fits size = true) (recorded : app.session.history ≠ []) :
    let area := historyArea size app.detailsShown
    HistoryPanel.Shows (app.screen size) area.inner
      (HistoryPanel.items (HistoryPanel.wrapWidth area) app.session.history) 0 := by
  intro area
  obtain ⟨wide, high⟩ := fits_iff.mp fit
  have beside : ∀ row column, area.inner.Contains row column →
      (3 < row ∧ row + 1 < 3 + area.height) ∧ keypadWidth < column ∧ column < size.width := by
    intro row column inside
    simp only [area, historyArea, Area.Contains, Area.inner, keypadWidth] at inside ⊢
    omega
  have above : 4 + area.height + (if app.detailsShown then detailsHeight else 0) = size.height := by
    simp only [area, historyArea, bodyHeight, detailsHeight]
    split_ifs <;> omega
  simp only [screen, main, large, Bool.false_eq_true, if_false, MainScreen.paint]
  refine HistoryPanel.Shows.keeps ?_ (Paragraph.place_keeps _ (statusArea size) _ _) ?below
  case below =>
    intro row column inside
    have bounds := beside row column inside
    simp only [Area.Contains, statusArea]
    omega
  have shown : HistoryPanel.Shows (HistoryPanel.paint app.session.history app.historyScroll area
      (MainScreen.paintKeypad app.lastPressed ⟨0, 3, keypadWidth, bodyHeight size⟩
        (MainScreen.paintDisplay app.session (displayArea size) (Screen.blank size)))) area.inner
      (HistoryPanel.items (HistoryPanel.wrapWidth area) app.session.history) 0 := by
    refine HistoryPanel.paint_shows recorded _ fun row column inside => ?_
    have bounds := beside row column inside
    rw [MainScreen.paintKeypad_keeps, MainScreen.paintDisplay_keeps, Screen.cell?_blank]
    all_goals simp only [Area.Contains, displayArea, bodyHeight, keypadWidth] at bounds ⊢
    all_goals omega
  split
  case isFalse => exact shown
  case isTrue details =>
    have broad : 0 < (detailsArea size).width := by
      simp only [detailsArea, keypadWidth]
      omega
    refine shown.keeps (MainScreen.paintDetails_keeps _ (by decide : 0 < detailsHeight) broad _) ?_
    intro row column inside
    have bounds := beside row column inside
    simp only [if_pos details] at above
    simp only [Area.Contains, detailsArea, bodyHeight, detailsHeight] at above ⊢
    omega

theorem meet_draw_shows (main : app.helpOpen = false) (fit : fits size = true)
    (recorded : app.session.history ≠ []) :
    let area := historyArea size app.detailsShown
    HistoryPanel.Shows ((app.meet (.draw size)).screen size) area.inner
      (HistoryPanel.items (HistoryPanel.wrapWidth area) app.session.history) 0 := by
  intro area
  rw [meet_draw_of_nonempty main fit recorded]
  exact screen_shows main rfl fit recorded

/-- After a draw the panel shows the items from the first on, so it agrees with a scroll only while
nothing is scrolled, and the last line of a result just recorded is in it only then. -/
theorem rows_after_draw {details : Bool} {moments : List Moment} {size : Size}
    (main : (after details moments).helpOpen = false) (fit : fits size = true)
    (recorded : (after details moments).session.history ≠ []) :
    let app := after details moments
    let area := historyArea size app.detailsShown
    let items := HistoryPanel.items (HistoryPanel.wrapWidth area) app.session.history
    let drawn := after details (moments ++ [.draw size])
    let screen := drawn.screen size
    HistoryPanel.Shows screen area.inner items 0 ∧
      (HistoryPanel.Distinct items area.inner.width →
        (HistoryPanel.Shows screen area.inner items drawn.historyScroll ↔ drawn.historyScroll = 0) ∧
        (∀ number < items.length, HistoryPanel.HasRow screen area.inner items number ↔
          number < drawn.listHeight) ∧
        (Pending details moments →
          (HistoryPanel.HasRow screen area.inner items (items.length - 1) ↔
            drawn.historyScroll = 0))) := by
  intro app area items drawn screen
  have met : drawn = app.meet (.draw size) := after_append details moments _
  have lines : items.length =
      (HistoryPanel.lines (HistoryPanel.wrapWidth area) app.session.history).length :=
    HistoryPanel.items_length _ _
  have positive : 0 < items.length := by
    rw [lines]
    exact lines_pos recorded (HistoryPanel.wrapWidth_pos fit app.detailsShown)
  have tall : 0 < area.inner.height := inner_height_pos fit app.detailsShown
  have height : drawn.listHeight = area.inner.height := by
    rw [met, meet_draw_of_nonempty main fit recorded]
  have scroll : drawn.historyScroll = if app.followNewest then items.length - area.inner.height
      else min app.historyScroll (items.length - area.inner.height) := by
    rw [met, meet_draw_of_nonempty main fit recorded, lines]
  have inside : drawn.historyScroll < items.length := by
    rw [scroll]
    split_ifs <;> omega
  have shown : HistoryPanel.Shows screen area.inner items 0 := by
    change HistoryPanel.Shows (drawn.screen size) area.inner items 0
    rw [met]
    exact meet_draw_shows main fit recorded
  refine ⟨shown, fun distinct => ⟨shown.iff_first distinct inside tall, ?_, ?_⟩⟩
  · intro number listed
    rw [height]
    exact shown.hasRow_iff distinct listed
  · intro pending
    obtain ⟨follows, _⟩ := (pending_iff details moments).mp pending
    rw [shown.hasRow_iff distinct (Nat.sub_lt positive Nat.one_pos), scroll, if_pos follows]
    omega

theorem rows_after_page :
    let moments := "1=+1=+1=+1=+1=+1=".toList.map (fun c => Moment.key (.char c)) ++
      [.draw ⟨50, 19⟩, .event (.wheel .up)]
    let items := HistoryPanel.items 17 (after true moments).session.history
    let drawn := after true (moments ++ [.draw ⟨50, 19⟩])
    (after true moments).helpOpen = false ∧ fits ⟨50, 19⟩ = true ∧
      (historyArea ⟨50, 19⟩ (after true moments).detailsShown).inner = ⟨30, 4, 19, 5⟩ ∧
      items.length = 6 ∧
      drawn.historyScroll = 0 ∧ drawn.listHeight = 5 ∧
      HistoryPanel.Shows (drawn.screen ⟨50, 19⟩) ⟨30, 4, 19, 5⟩ items drawn.historyScroll ∧
      ¬ HistoryPanel.HasRow (drawn.screen ⟨50, 19⟩) ⟨30, 4, 19, 5⟩ items 5 := by
  intro moments items drawn
  have main : (after true moments).helpOpen = false := by decide +kernel
  have details : (after true moments).detailsShown = true := by decide +kernel
  have fit : fits ⟨50, 19⟩ = true := by decide
  have recorded : (after true moments).session.history ≠ [] := by decide +kernel
  have distinct : HistoryPanel.Distinct items 19 := by decide +kernel
  have count : items.length = 6 := by decide +kernel
  have scroll : drawn.historyScroll = 0 := by decide +kernel
  have height : drawn.listHeight = 5 := by decide +kernel
  have rows := rows_after_draw main fit recorded
  dsimp only at rows
  rw [details] at rows
  obtain ⟨shows, listed, _⟩ := rows.2 distinct
  have sixth : 5 < items.length := by rw [count]; decide
  refine ⟨main, fit, by rw [details]; rfl, count, scroll, height, shows.mpr scroll, fun row => ?_⟩
  have low : 5 < drawn.listHeight := (listed 5 sixth).mp row
  rw [height] at low
  exact absurd low (by decide)

/-- A sixth result scrolls the panel by a line, yet it shows the first five. -/
theorem newest_row_missing :
    let moments := "1=+1=+1=+1=+1=+1=".toList.map fun c => Moment.key (.char c)
    let items := HistoryPanel.items 17 (after true moments).session.history
    let drawn := after true (moments ++ [.draw ⟨50, 19⟩])
    (after true moments).helpOpen = false ∧ fits ⟨50, 19⟩ = true ∧
      (historyArea ⟨50, 19⟩ (after true moments).detailsShown).inner = ⟨30, 4, 19, 5⟩ ∧
      Pending true moments ∧ items.length = 6 ∧ drawn.historyScroll = 1 ∧ drawn.listHeight = 5 ∧
      ¬ HistoryPanel.Shows (drawn.screen ⟨50, 19⟩) ⟨30, 4, 19, 5⟩ items drawn.historyScroll ∧
      ¬ HistoryPanel.HasRow (drawn.screen ⟨50, 19⟩) ⟨30, 4, 19, 5⟩ items 5 := by
  intro moments items drawn
  have main : (after true moments).helpOpen = false := by decide +kernel
  have details : (after true moments).detailsShown = true := by decide +kernel
  have fit : fits ⟨50, 19⟩ = true := by decide
  have pending : Pending true moments := (pending_iff true moments).mpr (by decide +kernel)
  have recorded : (after true moments).session.history ≠ [] := by decide +kernel
  have distinct : HistoryPanel.Distinct items 19 := by decide +kernel
  have count : items.length = 6 := by decide +kernel
  have scroll : drawn.historyScroll = 1 := by decide +kernel
  have height : drawn.listHeight = 5 := by decide +kernel
  have sixth : 5 < items.length := by rw [count]; decide
  have shown : HistoryPanel.Shows (drawn.screen ⟨50, 19⟩) ⟨30, 4, 19, 5⟩ items 0 := by
    have drawn_first := meet_draw_shows main fit recorded
    rw [← after_append, details] at drawn_first
    exact drawn_first
  refine ⟨main, fit, by rw [details]; rfl, pending, count, scroll, height, ?_, ?_⟩
  · intro other
    rw [scroll] at other
    have second : 1 < items.length := Nat.lt_trans (by decide) sixth
    cases (shown.iff_first distinct second (by decide)).mp other
  · intro row
    exact absurd ((shown.hasRow_iff distinct sixth).mp row) (by decide)

end App

end Calculator.FullScreen
