import Mathlib.Data.List.Basic
import Calculator.Screen.Frame
import Calculator.Screen.ItemList

namespace Calculator

theorem Cell.over_blank (cell : Cell) : cell.over {} = cell := by
  obtain ⟨glyph, foreground, background, bold, underlined, reversed⟩ := cell
  cases foreground <;> cases background <;> simp [Cell.over, Style.over]

namespace Area

def Contains (area : Area) (row column : Nat) : Prop :=
  (area.top ≤ row ∧ row < area.top + area.height) ∧
    area.left ≤ column ∧ column < area.left + area.width

instance (area : Area) (row column : Nat) : Decidable (area.Contains row column) :=
  inferInstanceAs (Decidable ((_ ∧ _) ∧ _ ∧ _))

theorem contains_of_inner {area : Area} {row column : Nat}
    (inside : area.inner.Contains row column) : area.Contains row column := by
  simp only [Contains, inner] at inside ⊢
  omega

end Area

namespace Screen

def cell? (screen : Screen) (row column : Nat) : Option Cell :=
  screen[row]?.bind fun cells => cells[column]?

/-- Cells that are not in the area are the same on both screens. -/
def Keeps (area : Area) (before after : Screen) : Prop :=
  ∀ row column, ¬ area.Contains row column → after.cell? row column = before.cell? row column

/-- What a column shows when cells have been laid on it from `start` on. -/
def laid (start : Nat) (cells : List Cell) (column : Nat) (base : Cell) : Cell :=
  if start ≤ column then cells[column - start]?.elim base (·.over base) else base

variable {area : Area} {first second third : Screen}

theorem Keeps.trans (early : Keeps area first second) (late : Keeps area second third) :
    Keeps area first third := fun row column outside =>
  (late row column outside).trans (early row column outside)

theorem Keeps.mono {part : Area} (keeps : Keeps part first second)
    (inside : ∀ row column, part.Contains row column → area.Contains row column) :
    Keeps area first second := fun row column outside =>
  keeps row column fun member => outside (inside row column member)

theorem keeps_foldl {β : Type} {f : Screen → β → Screen} {parts : List β}
    (keeps : ∀ part ∈ parts, ∀ screen, Keeps area screen (f screen part)) (screen : Screen) :
    Keeps area screen (parts.foldl f screen) := by
  induction parts generalizing screen with
  | nil => exact fun _ _ _ => rfl
  | cons part parts ih =>
      obtain ⟨now, later⟩ := List.forall_mem_cons.mp keeps
      exact (now screen).trans (ih later _)

theorem cell?_blank {size : Size} {row column : Nat} (high : row < size.height)
    (wide : column < size.width) : (blank size).cell? row column = some {} := by
  simp [cell?, blank, high, wide]

theorem getElem?_change {α : Type} (f : α → α) (start count : Nat) (xs : List α) (i : Nat) :
    (change f start count xs)[i]? = if start ≤ i ∧ i < start + count then xs[i]?.map f else xs[i]? := by
  induction xs generalizing start count i with
  | nil => simp [change]
  | cons x xs ih =>
      cases count with
      | zero =>
          have same : change f start 0 (x :: xs) = x :: xs := by cases start <;> rfl
          rw [same, if_neg (by omega)]
      | succ count =>
          cases start with
          | zero =>
              cases i with
              | zero => simp [change]
              | succ i => simp [change, ih]
          | succ start =>
              cases i with
              | zero => simp [change]
              | succ i => simp [change, ih, Nat.succ_add]

theorem cell?_paint (area : Area) (f : Cell → Cell) (screen : Screen) (row column : Nat) :
    (screen.paint area f).cell? row column =
      if area.Contains row column then (screen.cell? row column).map f else screen.cell? row column := by
  unfold cell? paint
  rw [getElem?_change]
  by_cases high : area.top ≤ row ∧ row < area.top + area.height
  · rw [if_pos high, Option.bind_map]
    cases screen[row]? with
    | none => simp
    | some cells =>
        by_cases wide : area.left ≤ column ∧ column < area.left + area.width
        · rw [if_pos ⟨high, wide⟩]
          exact (getElem?_change f _ _ cells column).trans (if_pos wide)
        · rw [if_neg fun inside => wide inside.2]
          exact (getElem?_change f _ _ cells column).trans (if_neg wide)
  · rw [if_neg high, if_neg fun inside => high inside.1]

theorem paint_keeps (area : Area) (f : Cell → Cell) (screen : Screen) :
    Keeps area screen (screen.paint area f) := fun row column outside =>
  (cell?_paint area f screen row column).trans (if_neg outside)

theorem lay_keeps (area : Area) (style : Style) (screen : Screen) :
    Keeps area screen (screen.lay area style) :=
  paint_keeps area _ screen

theorem laid_of_none {start : Nat} {cells : List Cell} {column : Nat}
    (past : start ≤ column → cells[column - start]? = none) : laid start cells column = id := by
  funext base
  unfold laid
  split
  case isTrue reached => rw [past reached]; rfl
  case isFalse => rfl

theorem getElem?_overlay (start : Nat) (cells row : List Cell) (column : Nat) :
    (overlay start cells row)[column]? = row[column]?.map (laid start cells column) := by
  induction row generalizing start cells column with
  | nil => simp [overlay]
  | cons base row ih =>
      cases cells with
      | nil => simp [overlay, laid_of_none]
      | cons cell cells =>
          cases start with
          | zero =>
              cases column with
              | zero => rfl
              | succ column =>
                  have same : laid 0 (cell :: cells) (column + 1) = laid 0 cells column := by
                    funext base
                    simp [laid]
                  simp [overlay, ih, same]
          | succ start =>
              cases column with
              | zero => rfl
              | succ column =>
                  have same : laid (start + 1) (cell :: cells) (column + 1) =
                      laid start (cell :: cells) column := by
                    funext base
                    simp [laid]
                  simp [overlay, ih, same]

theorem cell?_write (start : Nat) (row : Nat) (cells : List Cell) (screen : Screen) (i j : Nat) :
    (screen.write start row cells).cell? i j =
      if i = row then (screen.cell? i j).map (laid start cells j) else screen.cell? i j := by
  unfold cell? write
  rw [getElem?_change]
  by_cases here : i = row
  · rw [if_pos here, if_pos (by omega), Option.bind_map]
    cases screen[i]? with
    | none => rfl
    | some base => exact getElem?_overlay start cells base j
  · rw [if_neg here, if_neg (by omega)]

theorem cell?_writeLines (lines : List (Nat × List Cell)) (row : Nat) (screen : Screen) (i j : Nat) :
    (writeLines row lines screen).cell? i j = (screen.cell? i j).map fun base =>
      if row ≤ i then lines[i - row]?.elim base fun line => laid line.1 line.2 j base else base := by
  induction lines generalizing row screen with
  | nil => simp [writeLines]
  | cons line rest ih =>
      rw [writeLines, ih, cell?_write]
      rcases Nat.lt_trichotomy i row with above | here | below
      · have before : ¬ row ≤ i := Nat.not_le.mpr above
        have early : ¬ row + 1 ≤ i := by omega
        simp only [Nat.ne_of_lt above, early, before, if_false]
      · subst here
        have early : ¬ i + 1 ≤ i := Nat.not_succ_le_self i
        simp [early, Function.comp_def]
      · have next : i - row = i - (row + 1) + 1 := by omega
        have later : row ≤ i := Nat.le_of_lt below
        simp [Nat.ne_of_gt below, Nat.succ_le_of_lt below, later, next]

theorem writeLines_keeps {lines : List (Nat × List Cell)} (few : lines.length ≤ area.height)
    (fits : ∀ line ∈ lines, area.left ≤ line.1 ∧ line.1 + line.2.length ≤ area.left + area.width)
    (screen : Screen) : Keeps area screen (writeLines area.top lines screen) := by
  intro row column outside
  have same : ∀ base : Cell, (if area.top ≤ row then
      lines[row - area.top]?.elim base fun line => laid line.1 line.2 column base else base) = base := by
    intro base
    split
    case isFalse => rfl
    case isTrue below =>
      cases found : lines[row - area.top]? with
      | none => rfl
      | some line =>
          have bound := (List.getElem?_eq_some_iff.mp found).1
          obtain ⟨left, right⟩ := fits line (List.mem_of_getElem? found)
          simp only [Area.Contains] at outside
          have past : laid line.1 line.2 column = id :=
            laid_of_none fun reached => List.getElem?_eq_none (by omega)
          exact congrFun past base
  rw [cell?_writeLines, funext same]
  exact Option.map_id'

theorem write_keeps {start : Nat} {cells : List Cell} (left : area.left ≤ start)
    (right : start + cells.length ≤ area.left + area.width) (screen : Screen) :
    Keeps { area with height := 1 } screen (screen.write start area.top cells) := by
  have keeps : Keeps { area with height := 1 } screen (writeLines area.top [(start, cells)] screen) := by
    apply writeLines_keeps
    · exact Nat.le_refl 1
    · exact List.forall_mem_singleton.mpr ⟨left, right⟩
  exact keeps

end Screen

namespace Paragraph

theorem offset_le (alignment : Alignment) {width length : Nat} (fits : length ≤ width) :
    offset alignment width length + length ≤ width := by
  cases alignment <;> simp only [offset] <;> omega

theorem place_keeps (alignment : Alignment) (area : Area) (lines : List (List Cell))
    (screen : Screen) : Screen.Keeps area screen (place alignment area lines screen) := by
  apply Screen.writeLines_keeps
  · rw [List.length_map]
    exact List.length_take_le _ _
  · intro placed member
    obtain ⟨line, _, rfl⟩ := List.mem_map.mp member
    have fits := offset_le alignment (List.length_take_le area.width line)
    dsimp only
    omega

theorem cell?_place {area : Area} {row column : Nat} (inside : area.Contains row column)
    (lines : List (List Cell)) (screen : Screen) :
    (place .left area lines screen).cell? row column = (screen.cell? row column).map fun base =>
      (((lines[row - area.top]?).getD [])[column - area.left]?).elim base (·.over base) := by
  obtain ⟨⟨below, high⟩, right, wide⟩ := inside
  have reached : row - area.top < area.height := by omega
  have broad : column - area.left < area.width := by omega
  rw [place, Screen.cell?_writeLines]
  simp only [below, if_true, List.getElem?_map, List.getElem?_take, reached]
  congr 1
  funext base
  cases lines[row - area.top]? with
  | none => rfl
  | some line => simp [Screen.laid, offset, right, broad]

end Paragraph

/-- Nothing selected, so the first item counts, and the list begins with it. -/
theorem ItemList.top_of_unselected {list : ItemList} (unselected : list.selected = none)
    (height : Nat) : list.top height = 0 := by
  simp [top, unselected]

namespace Frame

def OnEdge (area : Area) (row column : Nat) : Prop :=
  area.Contains row column ∧ ¬ area.inner.Contains row column

variable {area : Area} (high : 0 < area.height) (wide : 0 < area.width)
  {row column : Nat} (away : ¬ OnEdge area row column)

include high wide away

theorem cell?_border (frame : Frame) (screen : Screen) :
    (frame.border area screen).cell? row column = screen.cell? row column := by
  have other {part : Area} (edge : part.Contains row column → OnEdge area row column)
      (f : Cell → Cell) (screen : Screen) :
      (screen.paint part f).cell? row column = screen.cell? row column :=
    Screen.paint_keeps part f screen row column fun inside => away (edge inside)
  unfold border
  dsimp only
  iterate 8 rw [other (by simp only [OnEdge, Area.Contains, Area.inner]; omega)]

theorem cell?_paint (frame : Frame) (screen : Screen) :
    (frame.paint area screen).cell? row column = screen.cell? row column := by
  refine Eq.trans ?_ (frame.cell?_border high wide away screen)
  have keeps : Screen.Keeps { area with height := 1 } (frame.border area screen)
      (frame.paint area screen) := by
    refine Screen.write_keeps (Nat.le_add_right _ _) ?_ _
    rw [List.length_map, List.length_take]
    omega
  refine keeps row column fun title => away ?_
  simp only [OnEdge, Area.Contains, Area.inner] at title ⊢
  omega

end Frame

namespace Frame

variable {area : Area} (high : 0 < area.height) (wide : 0 < area.width)

include high wide

theorem paint_keeps (frame : Frame) (screen : Screen) :
    Screen.Keeps area screen (frame.paint area screen) := fun _ _ outside =>
  frame.cell?_paint high wide (fun edge => outside edge.1) screen

theorem filled_keeps (frame : Frame) (alignment : Alignment) (lines : List (List Cell))
    (screen : Screen) : Screen.Keeps area screen
      (Paragraph.place alignment area.inner lines (frame.paint area screen)) :=
  (frame.paint_keeps high wide screen).trans
    ((Paragraph.place_keeps alignment area.inner lines _).mono fun _ _ => Area.contains_of_inner)

end Frame

end Calculator
