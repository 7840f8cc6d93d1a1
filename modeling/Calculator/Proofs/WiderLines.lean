import Calculator.Proofs.FewestLines

/-! A wider line never makes more lines.

Lines as they are made take no more lines than any blocks of the same words, a word with room on a
line cut or not. What fits a narrow line fits a wide one, so the blocks of the narrow lines are such
blocks for the wide ones. -/

namespace Calculator.Text

variable {columns : Char → Nat}

theorem Within.mono {narrow wide : Nat} {line : Text} (within : Within columns narrow line)
    (le : narrow ≤ wide) : Within columns wide line := by
  rcases within with fits | ⟨c, rfl, _⟩
  · exact Or.inl (Nat.le_trans fits le)
  · have single : Text.widthBy columns [c] = columns c := rfl
    rcases Nat.lt_or_ge wide (columns c) with wider | fits
    · exact Or.inr ⟨c, rfl, wider⟩
    · exact Or.inl (by rw [single]; exact fits)

section

variable {width room : Nat} {piece : Text} {c : Char}

theorem pieces_more (fits : columns c ≤ room) (rest : Text) :
    pieces columns width room piece (c :: rest) =
      pieces columns width (room - columns c) (piece ++ [c]) rest := by
  rw [pieces, if_pos fits]

theorem pieces_full (full : room < columns c) (narrow : columns c ≤ width) (rest : Text) :
    pieces columns width room piece (c :: rest) =
      (if piece.isEmpty then [] else [piece]) ++
        pieces columns width (width - columns c) [c] rest := by
  rw [pieces, if_neg (Nat.not_le.mpr full), if_pos narrow]

theorem pieces_wide (bound : room ≤ width) (wide : width < columns c) (rest : Text) :
    pieces columns width room piece (c :: rest) =
      (if piece.isEmpty then [] else [piece]) ++ [c] :: pieces columns width width [] rest := by
  have full : room < columns c := Nat.lt_of_le_of_lt bound wide
  rw [pieces, if_neg (Nat.not_le.mpr full), if_neg (Nat.not_le.mpr wide)]

theorem pieces_length_le {spare : Nat} {other : Text} (begun : piece ≠ []) (started : other ≠ [])
    (bound : room ≤ width) (bounded : spare ≤ width) (word : Text) :
    (pieces columns width room piece word).length ≤
        (pieces columns width spare other word).length + 1 ∧
      (spare ≤ room → (pieces columns width room piece word).length ≤
        (pieces columns width spare other word).length) := by
  induction word generalizing room spare piece other with
  | nil => simp [pieces, begun, started]
  | cons c rest ih =>
      have more (line : Text) : line ++ [c] ≠ [] := by simp
      have single : [c] ≠ [] := List.cons_ne_nil _ _
      have less {room : Nat} (bound : room ≤ width) : room - columns c ≤ width :=
        Nat.le_trans (Nat.sub_le _ _) bound
      rcases Nat.lt_or_ge width (columns c) with wide | narrow
      · rw [pieces_wide bound wide, pieces_wide bounded wide]
        simp [begun, started]
      rcases Nat.lt_or_ge room (columns c) with full | fits
      · rcases Nat.lt_or_ge spare (columns c) with tight | space
        · rw [pieces_full full narrow, pieces_full tight narrow]
          simp [begun, started]
        · have ahead := (ih single (more other) (less (Nat.le_refl width)) (less bounded)).2
            (Nat.sub_le_sub_right bounded _)
          rw [pieces_full full narrow, pieces_more space]
          simp only [begun, List.isEmpty_iff, if_false, List.length_append, List.length_singleton]
          omega
      · rw [pieces_more fits]
        rcases Nat.lt_or_ge spare (columns c) with tight | space
        · have behind := (ih (more piece) single (less bound) (less (Nat.le_refl width))).1
          rw [pieces_full tight narrow]
          simp only [started, List.isEmpty_iff, if_false, List.length_append, List.length_singleton]
          omega
        · have later := ih (more piece) (more other) (less bound) (less bounded)
          rw [pieces_more space]
          omega

theorem pieces_length_le_over (begun : piece ≠ []) (bound : room ≤ width) (word : Text) :
    (pieces columns width room piece word).length ≤
      (pieces columns width width [] word).length + 1 := by
  cases word with
  | nil => simp [pieces, begun]
  | cons c rest =>
      rcases Nat.lt_or_ge width (columns c) with wide | narrow
      · rw [pieces_wide bound wide, pieces_wide (Nat.le_refl width) wide]
        simp [begun]
      have start : pieces columns width width [] (c :: rest) =
          pieces columns width (width - columns c) [c] rest := pieces_more narrow rest
      rw [start]
      rcases Nat.lt_or_ge room (columns c) with full | fits
      · rw [pieces_full full narrow]
        simp [begun]
      · rw [pieces_more fits]
        exact (pieces_length_le (by simp) (by simp) (Nat.le_trans (Nat.sub_le _ _) bound)
          (Nat.sub_le _ _) rest).1

theorem pieces_part (begun : piece ≠ []) (bound : room ≤ width) {part : Text}
    (fits : part.widthBy columns ≤ room) (rest : Text) :
    (pieces columns width room piece (part ++ rest)).length ≤
      (pieces columns width width [] rest).length + 1 := by
  induction part generalizing room piece with
  | nil => exact pieces_length_le_over begun bound rest
  | cons c part ih =>
      have split : columns c + Text.widthBy columns part ≤ room := fits
      rw [List.cons_append, pieces_more (by omega)]
      exact ih (by simp) (by omega) (by omega)

end

/-- A word is cut into no more pieces than there are in any cut of it. -/
theorem pieces_fewest {width : Nat} {parts : List Text}
    (within : ∀ part ∈ parts, part ≠ [] ∧ Within columns width part) :
    (pieces columns width width [] parts.flatten).length ≤ parts.length := by
  induction parts with
  | nil => exact Nat.le_refl 0
  | cons part parts ih =>
      obtain ⟨⟨nonempty, fits⟩, others⟩ := List.forall_mem_cons.mp within
      have later := ih others
      obtain ⟨c, part, rfl⟩ := List.exists_cons_of_ne_nil nonempty
      rw [List.flatten_cons, List.length_cons]
      rcases fits with room | ⟨d, single, wide⟩
      · have split : columns c + Text.widthBy columns part ≤ width := room
        rw [List.cons_append, pieces_more (by omega)]
        calc
          _ ≤ (pieces columns width width [] parts.flatten).length + 1 :=
            pieces_part (by simp) (Nat.sub_le _ _) (by omega) _
          _ ≤ parts.length + 1 := Nat.succ_le_succ later
      · rw [single, List.singleton_append, pieces_wide (Nat.le_refl width) wide]
        exact Nat.succ_le_succ later

/-- The lines of a block have room; words may be cut though a line would have room for them. -/
def Block.HasRoom (columns : Char → Nat) (width : Nat) : Block → Prop
  | shared words => (joined words).widthBy columns ≤ width
  | cut pieces => ∀ piece ∈ pieces, piece ≠ [] ∧ Within columns width piece

theorem Block.Fits.hasRoom {narrow wide : Nat} {block : Block} (fits : block.Fits columns narrow)
    (le : narrow ≤ wide) : block.HasRoom columns wide := by
  cases block with
  | shared words => exact Nat.le_trans fits.2 le
  | cut pieces =>
      intro piece member
      obtain ⟨nonempty, within⟩ := fits.2 piece member
      exact ⟨nonempty, within.mono le⟩

theorem fill_block (gap : columns ' ' = 1) {width : Nat} {block : Block}
    (room : block.HasRoom columns width) {rest : List Text}
    (solid : ∀ word ∈ block.words ++ rest, word ≠ []) :
    (fill columns width [] (block.words ++ rest)).length ≤
      block.lines.length + (fill columns width [] rest).length := by
  cases block with
  | shared words =>
      cases words with
      | nil => exact Nat.le_add_left _ _
      | cons word words =>
          obtain ⟨first, after⟩ := List.forall_mem_cons.mp solid
          have narrow := Nat.le_trans (width_le_joined word words) room
          have one := fill_group gap first room after
          change (fill columns width [] (word :: (words ++ rest))).length ≤ 1 + _
          rw [fill_start narrow]
          omega
  | cut pieces =>
      obtain ⟨word, after⟩ : pieces.flatten ≠ [] ∧ ∀ word ∈ rest, word ≠ [] :=
        List.forall_mem_cons.mp solid
      change (fill columns width [] (pieces.flatten :: rest)).length ≤ pieces.length + _
      -- the block may cut a word that a line has room for
      rcases Nat.lt_or_ge width (Text.widthBy columns pieces.flatten) with wide | narrow
      · have fewest := pieces_fewest room
        rw [fill_wide wide]
        simp only [List.isEmpty_nil, if_true, List.nil_append, List.length_append]
        omega
      · have started : (fill columns width pieces.flatten rest).length ≤ _ :=
          fill_length_le_over gap word after
        have some : pieces ≠ [] := by
          intro none
          rw [none] at word
          exact word rfl
        have positive := List.length_pos_of_ne_nil some
        rw [fill_start narrow]
        omega

/-- Words take no more lines than any blocks that hold them. -/
theorem fill_length_le_blocks (gap : columns ' ' = 1) {width : Nat} {blocks : List Block}
    (room : ∀ block ∈ blocks, block.HasRoom columns width)
    (solid : ∀ word ∈ blocks.flatMap Block.words, word ≠ []) :
    (fill columns width [] (blocks.flatMap Block.words)).length ≤
      (blocks.flatMap Block.lines).length := by
  induction blocks with
  | nil => exact Nat.le_refl 0
  | cons block blocks ih =>
      obtain ⟨first, others⟩ := List.forall_mem_cons.mp room
      rw [List.flatMap_cons] at solid
      have later := ih others fun word member => solid word (List.mem_append_right _ member)
      have now := fill_block gap first solid
      rw [List.flatMap_cons, List.flatMap_cons, List.length_append]
      omega

/-- Wrapped at a wider line, a text has no more lines. -/
theorem wrap_length_antitone (gap : columns ' ' = 1) {narrow wide : Nat} (positive : 0 < narrow)
    (le : narrow ≤ wide) (text : Text) :
    (text.wrapBy columns wide).length ≤ (text.wrapBy columns narrow).length := by
  obtain ⟨blocks, fits, words, lines⟩ := wrapBy_blocks gap positive text
  have solid : ∀ word ∈ text.words, word ≠ [] := fun word member => (words_nonblank member).1
  have more : wide ≠ 0 := Nat.ne_of_gt (Nat.lt_of_lt_of_le positive le)
  rw [lines, wrapBy, if_neg more]
  rw [words] at solid ⊢
  exact fill_length_le_blocks gap (fun block member => (fits block member).hasRoom le) solid

theorem wrap_length_wide_word :
    let columns (c : Char) : Nat := if c ∈ ['漢', '字'] then 2 else if c = '\u0301' then 0 else 1
    let text : Text := "1 漢字\u0301 2".toList
    columns ' ' = 1 ∧ 0 < 1 ∧ 1 ≤ 7 ∧
      text.wrapBy columns 1 =
        ["1".toList, "漢".toList, "字".toList, "\u0301".toList, "2".toList] ∧
      text.wrapBy columns 7 = ["1 漢字\u0301".toList, "2".toList] ∧
      (text.wrapBy columns 7).length ≤ (text.wrapBy columns 1).length := by
  intro columns text
  have gap : columns ' ' = 1 := by decide
  exact ⟨gap, by decide, by decide, by decide, by decide,
    wrap_length_antitone gap (by decide) (by decide) text⟩

end Calculator.Text
