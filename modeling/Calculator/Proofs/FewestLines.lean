import Calculator.Proofs.WrappedLines

/-! Wrapping takes as few lines as there can be.

Whatever stands on a line, the words after it take at most one line more than they would after any
other, and none more if it is no wider. So no other way to break the lines gets ahead of taking as many
words as fit. -/

namespace Calculator.Text

/-- A way to set words, in their order, in lines of a width. -/
structure Layout (columns : Char → Nat) (width : Nat) (words : List Text)
    (groups : List (List Text)) : Prop where
  whole : groups.flatten = words
  fits : ∀ group ∈ groups, (joined group).widthBy columns ≤ width

variable {columns : Char → Nat}

theorem width_le_joined (word : Text) (rest : List Text) :
    word.widthBy columns ≤ (joined (word :: rest)).widthBy columns := by
  by_cases single : rest = []
  · exact Nat.le_of_eq (by rw [single, joined_singleton])
  · rw [joined_cons single, widthBy_append]
    exact Nat.le_add_right _ _

theorem joined_merge (first second : Text) (rest : List Text) :
    joined ((first ++ ' ' :: second) :: rest) = joined (first :: second :: rest) := by
  rw [joined_cons (List.cons_ne_nil second rest)]
  by_cases single : rest = []
  · rw [single, joined_singleton, joined_singleton]
  · rw [joined_cons single, joined_cons single, List.append_assoc]
    rfl

section

variable (gap : columns ' ' = 1) {width : Nat}

include gap

/-- A line that is begun is at most one line behind another, and not behind one that is as wide. -/
theorem fill_length_le {line other : Text} (begun : line ≠ []) (started : other ≠ [])
    {words : List Text} (solid : ∀ word ∈ words, word ≠ []) :
    (fill columns width line words).length ≤ (fill columns width other words).length + 1 ∧
      (line.widthBy columns ≤ other.widthBy columns →
        (fill columns width line words).length ≤ (fill columns width other words).length) := by
  induction words generalizing line other with
  | nil => simp [fill, begun, started]
  | cons word rest ih =>
      obtain ⟨first, after⟩ := List.forall_mem_cons.mp solid
      have more (line : Text) : line ++ ' ' :: word ≠ [] := by simp
      rcases Nat.lt_or_ge width (word.widthBy columns) with wide | narrow
      · rw [fill_wide wide, fill_wide wide]
        simp [begun, started]
      -- a line that ends before the word goes on with the word alone, the other one with more
      rcases Nat.lt_or_ge width (line.widthBy columns + 1 + word.widthBy columns) with full | room
      · rw [fill_full begun narrow full, List.length_cons]
        rcases Nat.lt_or_ge width (other.widthBy columns + 1 + word.widthBy columns)
          with tight | space
        · rw [fill_full started narrow tight, List.length_cons]
          omega
        · have ahead := (ih first (more other) after).2 (by rw [widthBy_spaced gap]; omega)
          rw [fill_more started space]
          omega
      · rw [fill_more begun room]
        rcases Nat.lt_or_ge width (other.widthBy columns + 1 + word.widthBy columns)
          with tight | space
        · have behind := (ih (more line) first after).1
          rw [fill_full started narrow tight, List.length_cons]
          omega
        · have later := ih (more line) (more other) after
          rw [widthBy_spaced gap, widthBy_spaced gap] at later
          rw [fill_more started space]
          omega

theorem fill_length_le_over {line : Text} (begun : line ≠ []) {words : List Text}
    (solid : ∀ word ∈ words, word ≠ []) :
    (fill columns width line words).length ≤ (fill columns width [] words).length + 1 := by
  cases words with
  | nil => simp [fill, begun]
  | cons word rest =>
      obtain ⟨first, after⟩ := List.forall_mem_cons.mp solid
      rcases Nat.lt_or_ge width (word.widthBy columns) with wide | narrow
      · rw [fill_wide wide, fill_wide wide]
        simp [begun]
      rw [fill_start narrow]
      rcases Nat.lt_or_ge width (line.widthBy columns + 1 + word.widthBy columns) with full | room
      · exact Nat.le_of_eq (by rw [fill_full begun narrow full, List.length_cons])
      · rw [fill_more begun room]
        exact (fill_length_le gap (by simp) first after).1

theorem fill_group {line : Text} (begun : line ≠ []) {group rest : List Text}
    (room : (joined (line :: group)).widthBy columns ≤ width)
    (solid : ∀ word ∈ group ++ rest, word ≠ []) :
    (fill columns width line (group ++ rest)).length ≤ (fill columns width [] rest).length + 1 := by
  induction group generalizing line with
  | nil => exact fill_length_le_over gap begun solid
  | cons word group ih =>
      have next : _ ≤ Text.widthBy columns _ := width_le_joined (line ++ ' ' :: word) group
      rw [joined_merge, widthBy_spaced gap] at next
      rw [List.cons_append, fill_more begun (Nat.le_trans next room)]
      rw [← joined_merge] at room
      exact ih (by simp) room fun word member => solid word (List.mem_cons_of_mem _ member)

theorem fill_layout {words : List Text} {groups : List (List Text)}
    (layout : Layout columns width words groups) (solid : ∀ word ∈ words, word ≠ []) :
    (fill columns width [] words).length ≤ groups.length := by
  obtain ⟨rfl, fits⟩ := layout
  induction groups with
  | nil => exact Nat.le_refl 0
  | cons group groups ih =>
      obtain ⟨room, others⟩ := List.forall_mem_cons.mp fits
      rw [List.flatten_cons] at solid ⊢
      have later := ih others fun word member => solid word (List.mem_append_right _ member)
      cases group with
      | nil => exact Nat.le_succ_of_le later
      | cons word group =>
          obtain ⟨first, after⟩ := List.forall_mem_cons.mp solid
          have narrow := Nat.le_trans (width_le_joined word group) room
          calc
            _ = (fill columns width word (group ++ groups.flatten)).length := by
              rw [List.cons_append, fill_start narrow]
            _ ≤ (fill columns width [] groups.flatten).length + 1 :=
              fill_group gap first room after
            _ ≤ groups.length + 1 := Nat.succ_le_succ later

theorem wrapBy_layout (positive : 0 < width) {text : Text}
    (narrow : ∀ word ∈ text.words, word.widthBy columns ≤ width) :
    ∃ groups, Layout columns width text.words groups ∧ [] ∉ groups ∧
      text.wrapBy columns width = groups.map joined := by
  obtain ⟨blocks, fits, words, lines⟩ := wrapBy_blocks gap positive text
  have shared : ∀ block ∈ blocks, block.words ≠ [] ∧ (joined block.words).widthBy columns ≤ width ∧
      block.lines = [joined block.words] := by
    intro block member
    have fit := fits block member
    cases block with
    | shared words => exact ⟨fit.1, fit.2, rfl⟩
    | cut pieces =>
        have found : pieces.flatten ∈ text.words := by
          rw [words]
          exact List.mem_flatMap.mpr ⟨_, member, List.mem_singleton_self _⟩
        exact absurd fit.1 (Nat.not_lt.mpr (narrow _ found))
  refine ⟨blocks.map Block.words, ⟨?_, ?_⟩, ?_, ?_⟩
  · rw [words, List.flatMap_def]
  · simpa using fun block member => (shared block member).2.1
  · simpa using fun block member => (shared block member).1
  · rw [lines, List.map_map, List.map_eq_flatMap]
    exact List.flatMap_congr fun block member => (shared block member).2.2

end

/-- The lines of a text whose words all fit a line lay its words out, and no layout has fewer. -/
theorem wrap_fewest (gap : columns ' ' = 1) {width : Nat} (positive : 0 < width) {text : Text}
    (narrow : ∀ word ∈ text.words, word.widthBy columns ≤ width) :
    (∃ groups, Layout columns width text.words groups ∧ [] ∉ groups ∧
      text.wrapBy columns width = groups.map joined) ∧
      ∀ groups, Layout columns width text.words groups →
        (text.wrapBy columns width).length ≤ groups.length := by
  refine ⟨wrapBy_layout gap positive narrow, fun groups layout => ?_⟩
  rw [wrapBy, if_neg (Nat.ne_of_gt positive)]
  exact fill_layout gap layout fun word member => (words_nonblank member).1

theorem wrap_fewest_sum :
    let columns (c : Char) : Nat := if c = '字' then 2 else if c = '\u0301' then 0 else 1
    let text : Text := "字 + 3\u0301 * 45".toList
    let groups := [["字".toList, "+".toList], ["3\u0301".toList, "*".toList], ["45".toList]]
    columns ' ' = 1 ∧ 0 < 6 ∧ (∀ word ∈ text.words, word.widthBy columns ≤ 6) ∧
      Layout columns 6 text.words groups ∧
      text.wrapBy columns 6 = ["字 + 3\u0301".toList, "* 45".toList] ∧
      (text.wrapBy columns 6).length ≤ groups.length := by
  intro columns text groups
  have gap : columns ' ' = 1 := by decide
  have narrow : ∀ word ∈ text.words, word.widthBy columns ≤ 6 := by decide
  have layout : Layout columns 6 text.words groups := ⟨by decide, by decide⟩
  exact ⟨gap, by decide, narrow, layout, by decide,
    (wrap_fewest gap (by decide) narrow).2 groups layout⟩

end Calculator.Text
