import Mathlib.Data.List.Basic
import Mathlib.Tactic.Tauto
import Calculator.Screen.Paragraph

namespace Calculator.Paragraph

namespace Folding

def held (f : Folding) : List Cell := f.line ++ f.blanks ++ f.word

def cells (f : Folding) : List Cell := f.held ++ f.lines.flatten

/-- What a cell meets: the word joins the line if the cell ends it or it has no room besides. -/
def met (width : Nat) (f : Folding) (c : Cell) : Folding :=
  let overfull := f.line.isEmpty && (width ≤ f.word.length || width ≤ f.blanks.length)
  if f.inWord && isBlank c.glyph || overfull then f.join else f

/-- Ends a line. Of the blanks after it those go that it had room for, and one more. -/
def endLine (width : Nat) (f : Folding) : Folding :=
  { f with line := [], blanks := f.blanks.drop (width - f.line.length + 1), lines := f.line :: f.lines }

def grow (f : Folding) (c : Cell) : Folding :=
  (if f.inWord && isBlank c.glyph then f.join else f).add c (isBlank c.glyph)

section

variable (f : Folding) (c : Cell)

theorem length_held : f.held.length = f.line.length + f.blanks.length + f.word.length := by
  rw [held, List.length_append, List.length_append]

theorem feed_eq (width : Nat) : feed width f c =
    let blank := isBlank c.glyph
    let g := f.met width c
    if g.held.length < width then g.add c blank
    else if blank && decide (g.blanks.length ≤ width - g.line.length) then g.endLine width
    else (g.endLine width).add c blank := by
  simp only [length_held]
  unfold feed
  dsimp only
  rw [← ite_not]
  simp only [Nat.not_le]
  rfl

theorem held_join : f.join.held.Sublist f.held := by
  unfold join held
  dsimp only
  rw [List.append_nil, List.append_nil]
  split
  case isTrue => exact List.sublist_append_right _ _
  case isFalse => exact List.Sublist.refl _

theorem lines_add (blank : Bool) : (f.add c blank).lines = f.lines := by
  cases blank <;> rfl

theorem lines_grow : (f.grow c).lines = f.lines := by
  rw [grow, lines_add]
  split <;> rfl

theorem length_held_add (blank : Bool) : (f.add c blank).held.length = f.held.length + 1 := by
  rw [length_held, length_held]
  cases blank with
  | true =>
      change f.line.length + (f.blanks ++ [c]).length + f.word.length = _
      rw [List.length_append, List.length_singleton]
      omega
  | false =>
      change f.line.length + f.blanks.length + (f.word ++ [c]).length = _
      rw [List.length_append, List.length_singleton]
      omega

theorem length_held_grow : (f.grow c).held.length ≤ f.held.length + 1 := by
  rw [grow, length_held_add]
  split
  case isTrue => exact Nat.succ_le_succ f.held_join.length_le
  case isFalse => exact Nat.le_refl _

section

variable {f c} {d : Cell} {width : Nat}

theorem mem_of_join (member : d ∈ f.join.cells) : d ∈ f.cells := by
  rw [cells, List.mem_append] at member ⊢
  exact member.imp_left fun inside => f.held_join.mem inside

theorem mem_of_met (member : d ∈ (f.met width c).cells) : d ∈ f.cells := by
  unfold met at member
  dsimp only at member
  split at member
  case isTrue => exact mem_of_join member
  case isFalse => exact member

theorem mem_of_endLine (member : d ∈ (f.endLine width).cells) : d ∈ f.cells := by
  have kept : d ∈ f.blanks.drop (width - f.line.length + 1) → d ∈ f.blanks := List.mem_of_mem_drop
  simp only [cells, held, endLine, List.mem_append, List.flatten_cons, List.not_mem_nil] at member ⊢
  tauto

theorem mem_of_add {blank : Bool} (member : d ∈ (f.add c blank).cells) : d ∈ f.cells ∨ d = c := by
  rw [cells, lines_add] at member
  cases blank <;>
  · simp only [cells, held, add, if_true, if_false, Bool.false_eq_true, List.mem_append,
      List.mem_singleton] at member ⊢
    tauto

theorem mem_of_feed (member : d ∈ (feed width f c).cells) : d ∈ f.cells ∨ d = c := by
  rw [feed_eq] at member
  dsimp only at member
  split at member
  case isTrue => exact (mem_of_add member).imp_left mem_of_met
  case isFalse =>
    split at member
    case isTrue => exact Or.inl (mem_of_met (mem_of_endLine member))
    case isFalse => exact (mem_of_add member).imp_left fun inside => mem_of_met (mem_of_endLine inside)

theorem feed_of_room (room : f.held.length < width) : feed width f c = f.grow c := by
  have narrow : (decide (width ≤ f.word.length) || decide (width ≤ f.blanks.length)) = false := by
    rw [length_held] at room
    simp only [Bool.or_eq_false_iff, decide_eq_false_iff_not]
    omega
  have joined : f.met width c = if f.inWord && isBlank c.glyph then f.join else f := by
    rw [met, narrow, Bool.and_false, Bool.or_false]
  have still : (f.met width c).held.length < width := by
    rw [joined]
    split
    case isTrue => exact Nat.lt_of_le_of_lt f.held_join.length_le room
    case isFalse => exact room
  rw [feed_eq]
  dsimp only
  rw [if_pos still, joined, grow]

end

end

theorem foldl_feed_of_room {width : Nat} (cells : List Cell) (f : Folding)
    (room : f.held.length + cells.length ≤ width) :
    cells.foldl (feed width) f = cells.foldl grow f := by
  induction cells generalizing f with
  | nil => rfl
  | cons c cells ih =>
      rw [List.length_cons] at room
      have grown := f.length_held_grow c
      rw [List.foldl_cons, List.foldl_cons, feed_of_room (by omega), ih _ (by omega)]

theorem foldl_grow_lines (cells : List Cell) (f : Folding) :
    (cells.foldl grow f).lines = f.lines := by
  induction cells generalizing f with
  | nil => rfl
  | cons c cells ih => rw [List.foldl_cons, ih, lines_grow]

theorem mem_of_foldl {width : Nat} {cells : List Cell} {f : Folding} {d : Cell}
    (member : d ∈ (cells.foldl (feed width) f).cells) : d ∈ f.cells ∨ d ∈ cells := by
  induction cells generalizing f with
  | nil => exact Or.inl member
  | cons c cells ih =>
      rw [List.mem_cons]
      rcases ih member with held | later
      · exact (mem_of_feed held).imp_right Or.inl
      · exact Or.inr (Or.inr later)

theorem finish_ne_nil (f : Folding) : f.finish ≠ [] := by
  unfold finish
  dsimp only
  split_ifs <;> simp_all

theorem length_finish_of_nil {f : Folding} (none : f.lines = []) : f.finish.length = 1 := by
  obtain ⟨line, blanks, word, inWord, lines⟩ := f
  dsimp only at none
  subst none
  cases line <;> cases blanks <;> cases word <;> rfl

theorem mem_finish {f : Folding} {line : List Cell} (member : line ∈ f.finish) :
    line = [] ∨ line = f.join.line ∨ line ∈ f.lines := by
  unfold finish at member
  dsimp only at member
  split_ifs at member <;> simp only [List.mem_reverse, List.mem_cons, List.not_mem_nil] at member <;>
    tauto

theorem mem_of_finish {f : Folding} {line : List Cell} (member : line ∈ f.finish) :
    ∀ c ∈ line, c ∈ f.cells := by
  intro c inside
  rcases mem_finish member with rfl | rfl | finished
  · cases inside
  · apply mem_of_join
    rw [cells, held]
    exact List.mem_append_left _ (List.mem_append_left _ (List.mem_append_left _ inside))
  · exact List.mem_append_right _ (List.mem_flatten.mpr ⟨line, finished, inside⟩)

end Folding

theorem fold_ne_nil (width : Nat) (cells : List Cell) : fold width cells ≠ [] :=
  Folding.finish_ne_nil _

theorem mem_of_fold {width : Nat} {cells line : List Cell} (member : line ∈ fold width cells) :
    ∀ c ∈ line, c ∈ cells := by
  intro c inside
  rcases Folding.mem_of_foldl (Folding.mem_of_finish member c inside) with none | own
  · cases none
  · exact own

theorem fold_of_fits {width : Nat} {cells : List Cell} (fits : cells.length ≤ width) :
    fold width cells = (cells.foldl Folding.grow {}).finish := by
  rw [fold, Folding.foldl_feed_of_room cells {} (by simpa [Folding.held] using fits)]

theorem length_fold_of_fits {width : Nat} {cells : List Cell} (fits : cells.length ≤ width) :
    (fold width cells).length = 1 := by
  rw [fold_of_fits fits]
  exact Folding.length_finish_of_nil (Folding.foldl_grow_lines cells {})

theorem length_le_flatMap_fold (width : Nat) (lines : List Span) :
    lines.length ≤ (lines.flatMap fun line => fold width line.cells).length := by
  induction lines with
  | nil => exact Nat.le_refl 0
  | cons line lines ih =>
      have positive := List.length_pos_of_ne_nil (fold_ne_nil width line.cells)
      rw [List.flatMap_cons, List.length_append, List.length_cons]
      omega

theorem length_flatMap_fold {width : Nat} {lines : List Span}
    (fits : ∀ line ∈ lines, line.content.length ≤ width) :
    (lines.flatMap fun line => fold width line.cells).length = lines.length := by
  induction lines with
  | nil => rfl
  | cons line lines ih =>
      obtain ⟨first, others⟩ := List.forall_mem_cons.mp fits
      have one : (fold width line.cells).length = 1 := by
        apply length_fold_of_fits
        rw [Span.cells, List.length_map]
        exact first
      rw [List.flatMap_cons, List.length_append, one, ih others, List.length_cons, Nat.add_comm]

end Calculator.Paragraph
