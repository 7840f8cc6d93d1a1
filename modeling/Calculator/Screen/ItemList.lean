import Calculator.Screen.Paragraph

/-!
Lists of items of one line each. A list begins at its offset, moved as little as brings the selected
item into sight; with no selection the first item counts as selected.
-/

namespace Calculator

structure ItemList where
  items : List (List Cell)
  offset : Nat := 0
  selected : Option Nat := none

namespace ItemList

def top (list : ItemList) (height : Nat) : Nat :=
  let selected := min (list.selected.getD 0) (list.items.length - 1)
  min selected (max list.offset (selected + 1 - height))

def paint (list : ItemList) (area : Area) (screen : Screen) : Screen :=
  Paragraph.place .left area (list.items.drop (list.top area.height)) screen

end ItemList

end Calculator
