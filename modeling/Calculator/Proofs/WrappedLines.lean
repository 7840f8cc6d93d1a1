import Calculator.Proofs.WrappedText

namespace Calculator.Text

def joined (words : List Text) : Text := [' '].intercalate words

/-- Words that share a line, or one word cut into pieces. -/
inductive Block where
  | shared (words : List Text)
  | cut (pieces : List Text)

structure Trimmed (line : Text) : Prop where
  nonempty : line ≠ []
  first : ∀ c ∈ line.head?, isBlank c = false
  last : ∀ c ∈ line.getLast?, isBlank c = false

/-- The line fits the width, or it is one character that does not. -/
def Within (columns : Char → Nat) (width : Nat) (line : Text) : Prop :=
  line.widthBy columns ≤ width ∨ ∃ c, line = [c] ∧ width < columns c

namespace Block

def words : Block → List Text
  | shared words => words
  | cut pieces => [pieces.flatten]

def lines : Block → List Text
  | shared words => [joined words]
  | cut pieces => pieces

/-- Words that share a line have room on it; only a word without room on any is cut. -/
def Fits (columns : Char → Nat) (width : Nat) : Block → Prop
  | shared words => words ≠ [] ∧ (joined words).widthBy columns ≤ width
  | cut pieces => width < Text.widthBy columns pieces.flatten ∧
      ∀ piece ∈ pieces, piece ≠ [] ∧ Within columns width piece

end Block

variable {columns : Char → Nat}

@[simp] theorem widthBy_append (front back : Text) :
    Text.widthBy columns (front ++ back) = front.widthBy columns + back.widthBy columns := by
  induction front with
  | nil => simp [widthBy]
  | cons c front ih => rw [List.cons_append, widthBy, widthBy, ih, Nat.add_assoc]

theorem widthBy_spaced (gap : columns ' ' = 1) (line word : Text) :
    Text.widthBy columns (line ++ ' ' :: word) =
      line.widthBy columns + 1 + word.widthBy columns := by
  rw [widthBy_append, widthBy, gap, Nat.add_assoc]

@[simp] theorem joined_singleton (word : Text) : joined [word] = word :=
  List.intercalate_singleton

theorem joined_cons {words : List Text} (nonempty : words ≠ []) (word : Text) :
    joined (word :: words) = word ++ ' ' :: joined words := by
  cases words with
  | nil => exact absurd rfl nonempty
  | cons next rest => simp [joined, List.intercalate_cons_cons]

theorem joined_concat {words : List Text} (nonempty : words ≠ []) (word : Text) :
    joined (words ++ [word]) = joined words ++ ' ' :: word := by
  induction words with
  | nil => exact absurd rfl nonempty
  | cons first rest ih =>
      cases rest with
      | nil => simp [joined_cons]
      | cons next rest =>
          have more : next :: rest ≠ [] := List.cons_ne_nil _ _
          rw [List.cons_append, joined_cons (by simp), ih more, joined_cons more, List.append_assoc]
          rfl

theorem joined_ne_nil {words : List Text} (nonempty : words ≠ []) (solid : ∀ word ∈ words, word ≠ []) :
    joined words ≠ [] := by
  cases words with
  | nil => exact absurd rfl nonempty
  | cons word rest =>
      have first : word ≠ [] := solid word List.mem_cons_self
      cases rest with
      | nil => simpa using first
      | cons next rest => simp [joined_cons]

theorem words_nonblank {text word : Text} (member : word ∈ text.words) :
    word ≠ [] ∧ ∀ c ∈ word, isBlank c = false := by
  constructor
  · simpa using List.of_mem_filter member
  · intro c inside
    have kept : c ∈ text.words.flatten := List.mem_flatten.mpr ⟨word, member, inside⟩
    rw [words_flatten] at kept
    simpa using List.of_mem_filter kept

theorem Trimmed.of_nonblank {line : Text} (nonempty : line ≠ [])
    (nonblank : ∀ c ∈ line, isBlank c = false) : Trimmed line where
  nonempty := nonempty
  first c head := nonblank c (List.mem_of_mem_head? head)
  last c last := nonblank c (List.mem_of_mem_getLast? last)

theorem Trimmed.spaced {line word : Text} (front : Trimmed line) (back : Trimmed word) :
    Trimmed (line ++ ' ' :: word) where
  nonempty := by simp
  first := by
    obtain ⟨c, rest, rfl⟩ := List.exists_cons_of_ne_nil front.nonempty
    exact front.first
  last := by
    rw [List.getLast?_append_cons, List.getLast?_cons_of_ne_nil back.nonempty]
    exact back.last

theorem joined_trimmed {words : List Text} (nonempty : words ≠ [])
    (trimmed : ∀ word ∈ words, Trimmed word) : Trimmed (joined words) := by
  induction words with
  | nil => exact absurd rfl nonempty
  | cons word rest ih =>
      obtain ⟨first, others⟩ := List.forall_mem_cons.mp trimmed
      by_cases single : rest = []
      · rw [single, joined_singleton]
        exact first
      · rw [joined_cons single]
        exact first.spaced (ih single others)

theorem pieces_within {width room : Nat} {piece : Text}
    (made : piece.widthBy columns + room = width) (word : Text) :
    ∀ p ∈ pieces columns width room piece word, p ≠ [] ∧ Within columns width p := by
  have closed {room : Nat} {piece : Text} (made : piece.widthBy columns + room = width) :
      ∀ p ∈ if piece.isEmpty then [] else [piece], p ≠ [] ∧ Within columns width p := by
    intro p member
    split at member
    case isTrue => cases member
    case isFalse nonempty =>
      obtain rfl := List.mem_singleton.mp member
      exact ⟨by simpa using nonempty, Or.inl (by omega)⟩
  induction word generalizing room piece with
  | nil => exact closed made
  | cons c rest ih =>
      have single : Text.widthBy columns [c] = columns c := rfl
      rw [pieces]
      by_cases fits : columns c ≤ room
      · rw [if_pos fits]
        exact ih (by rw [widthBy_append]; omega)
      · rw [if_neg fits]
        by_cases narrow : columns c ≤ width
        · rw [if_pos narrow]
          exact List.forall_mem_append.mpr ⟨closed made, ih (by omega)⟩
        · rw [if_neg narrow]
          have alone : Within columns width [c] := Or.inr ⟨c, rfl, Nat.lt_of_not_le narrow⟩
          exact List.forall_mem_append.mpr ⟨closed made,
            List.forall_mem_cons.mpr ⟨⟨List.cons_ne_nil _ _, alone⟩, ih (Nat.zero_add _)⟩⟩

section

variable {width : Nat} {line word : Text} {rest : List Text}

theorem fill_wide (wide : width < word.widthBy columns) :
    fill columns width line (word :: rest) =
      (if line.isEmpty then [] else [line]) ++ pieces columns width width [] word ++
        fill columns width [] rest := by
  rw [fill, if_pos wide]

theorem fill_start (narrow : word.widthBy columns ≤ width) :
    fill columns width [] (word :: rest) = fill columns width word rest := by
  rw [fill, if_neg (Nat.not_lt.mpr narrow)]
  rfl

theorem fill_more (nonempty : line ≠ [])
    (room : line.widthBy columns + 1 + word.widthBy columns ≤ width) :
    fill columns width line (word :: rest) = fill columns width (line ++ ' ' :: word) rest := by
  have narrow : ¬ width < word.widthBy columns := by omega
  rw [fill, if_neg narrow, if_neg (by simpa using nonempty), if_pos room]

theorem fill_full (nonempty : line ≠ []) (narrow : word.widthBy columns ≤ width)
    (full : width < line.widthBy columns + 1 + word.widthBy columns) :
    fill columns width line (word :: rest) = line :: fill columns width word rest := by
  rw [fill, if_neg (Nat.not_lt.mpr narrow), if_neg (by simpa using nonempty),
    if_neg (Nat.not_le.mpr full)]

end

theorem closed_blocks {width : Nat} {current : List Text}
    (room : (joined current).widthBy columns ≤ width) (solid : ∀ word ∈ current, word ≠ []) :
    ∃ blocks : List Block, (∀ block ∈ blocks, block.Fits columns width) ∧
      current = blocks.flatMap Block.words ∧
      (if (joined current).isEmpty then [] else [joined current]) = blocks.flatMap Block.lines := by
  by_cases empty : current = []
  · subst empty
    exact ⟨[], by simp, rfl, rfl⟩
  · have line := joined_ne_nil empty solid
    exact ⟨[.shared current], by simpa [Block.Fits] using ⟨empty, room⟩, by simp [Block.words],
      by simp [line, Block.lines]⟩

/-- The words on the line so far make a block with as many after them as it has room for. -/
theorem fill_blocks (gap : columns ' ' = 1) {width : Nat} (current : List Text) {words : List Text}
    (room : (joined current).widthBy columns ≤ width)
    (solid : ∀ word ∈ current ++ words, word ≠ []) :
    ∃ blocks : List Block, (∀ block ∈ blocks, block.Fits columns width) ∧
      current ++ words = blocks.flatMap Block.words ∧
      fill columns width (joined current) words = blocks.flatMap Block.lines := by
  induction words generalizing current with
  | nil =>
      rw [List.append_nil] at solid ⊢
      exact closed_blocks room solid
  | cons word rest ih =>
      obtain ⟨before, next⟩ := List.forall_mem_append.mp solid
      obtain ⟨first, after⟩ := List.forall_mem_cons.mp next
      rcases Nat.lt_or_ge width (word.widthBy columns) with wide | narrow
      · obtain ⟨closed, fits, texts, lines⟩ := closed_blocks room before
        obtain ⟨later, others, words, more⟩ := ih [] (Nat.zero_le _) after
        have cut : (Block.cut (pieces columns width width [] word)).Fits columns width :=
          ⟨by rw [pieces_flatten]; exact wide, pieces_within (Nat.zero_add _) word⟩
        refine ⟨closed ++ .cut (pieces columns width width [] word) :: later, ?_, ?_, ?_⟩
        · exact List.forall_mem_append.mpr ⟨fits, List.forall_mem_cons.mpr ⟨cut, others⟩⟩
        · rw [List.flatMap_append, List.flatMap_cons, ← texts, ← words, Block.words, pieces_flatten]
          rfl
        · rw [fill_wide wide, List.flatMap_append, List.flatMap_cons, ← lines, ← more, Block.lines,
            List.append_assoc]
          rfl
      · have alone := ih [word] (by simpa using narrow) (by simpa using ⟨first, after⟩)
        by_cases empty : current = []
        · subst empty
          obtain ⟨blocks, fits, words, lines⟩ := alone
          refine ⟨blocks, fits, words, ?_⟩
          rw [← lines, joined_singleton]
          exact fill_start narrow
        · have begun := joined_ne_nil empty before
          rcases Nat.lt_or_ge width ((joined current).widthBy columns + 1 + word.widthBy columns)
            with full | more
          · obtain ⟨blocks, fits, words, lines⟩ := alone
            refine ⟨.shared current :: blocks, List.forall_mem_cons.mpr ⟨⟨empty, room⟩, fits⟩, ?_, ?_⟩
            · rw [List.flatMap_cons, ← words]
              rfl
            · rw [fill_full begun narrow full, List.flatMap_cons, ← lines, joined_singleton]
              rfl
          · have line := joined_concat empty word
            obtain ⟨blocks, fits, words, lines⟩ := ih (current ++ [word])
              (by rw [line, widthBy_spaced gap]; exact more) (by simpa using solid)
            refine ⟨blocks, fits, ?_, ?_⟩
            · rw [← words, List.append_assoc]
              rfl
            · rw [← lines, line]
              exact fill_more begun more

theorem Block.Fits.lines {width : Nat} {block : Block} (fits : block.Fits columns width)
    (nonblank : ∀ word ∈ block.words, word ≠ [] ∧ ∀ c ∈ word, isBlank c = false) :
    ∀ line ∈ block.lines, Trimmed line ∧ Within columns width line := by
  cases block with
  | shared words =>
      obtain ⟨nonempty, room⟩ := fits
      have trimmed : ∀ word ∈ words, Trimmed word := fun word member =>
        .of_nonblank (nonblank word member).1 (nonblank word member).2
      exact List.forall_mem_singleton.mpr ⟨joined_trimmed nonempty trimmed, Or.inl room⟩
  | cut pieces =>
      intro piece member
      obtain ⟨nonempty, within⟩ := fits.2 piece member
      have solid := (List.forall_mem_singleton.mp nonblank).2
      exact ⟨.of_nonblank nonempty fun c inside =>
        solid c (List.mem_flatten.mpr ⟨piece, member, inside⟩), within⟩

theorem wrapBy_blocks (gap : columns ' ' = 1) {width : Nat} (positive : 0 < width) (text : Text) :
    ∃ blocks : List Block, (∀ block ∈ blocks, block.Fits columns width) ∧
      text.words = blocks.flatMap Block.words ∧
      text.wrapBy columns width = blocks.flatMap Block.lines := by
  have filled := fill_blocks gap [] (Nat.zero_le width)
    fun word (member : word ∈ text.words) => (words_nonblank member).1
  rw [wrapBy, if_neg (Nat.ne_of_gt positive)]
  exact filled

theorem wrapBy_lines (gap : columns ' ' = 1) {width : Nat} (positive : 0 < width) (text : Text) :
    ∀ line ∈ text.wrapBy columns width, Trimmed line ∧ Within columns width line := by
  obtain ⟨blocks, fits, words, lines⟩ := wrapBy_blocks gap positive text
  intro line member
  rw [lines] at member
  obtain ⟨block, present, inside⟩ := List.mem_flatMap.mp member
  refine (fits block present).lines (fun word part => ?_) line inside
  have found : word ∈ text.words := by
    rw [words]
    exact List.mem_flatMap.mpr ⟨block, present, part⟩
  exact words_nonblank found

theorem length_le_of_trimmed {lines : List Text} (trimmed : ∀ line ∈ lines, Trimmed line) :
    lines.length ≤ (lines.flatten.filter (!isBlank ·)).length := by
  induction lines with
  | nil => exact Nat.le_refl 0
  | cons line rest ih =>
      obtain ⟨first, others⟩ := List.forall_mem_cons.mp trimmed
      obtain ⟨c, tail, rfl⟩ := List.exists_cons_of_ne_nil first.nonempty
      have kept : isBlank c = false := first.first c rfl
      have later := ih others
      simp only [List.flatten_cons, List.filter_append, List.length_append, List.length_cons,
        List.filter_cons_of_pos, kept, Bool.not_false]
      omega

/-- Words that fit a line share lines unbroken, one space apart, and wider ones are cut into pieces on
lines of their own. Nothing but blanks is lost, every line is trimmed and within the width, and there
is a character that is not blank for each. From two columns on no line is wider than it should be. -/
theorem wrap_laws (narrow : ∀ c, columns c ≤ 2) (gap : columns ' ' = 1) {width : Nat}
    (positive : 0 < width) (text : Text) :
    (∃ blocks : List Block, (∀ block ∈ blocks, block.Fits columns width) ∧
      text.words = blocks.flatMap Block.words ∧
      text.wrapBy columns width = blocks.flatMap Block.lines) ∧
    (text.wrapBy columns width).flatten.filter (!isBlank ·) = text.filter (!isBlank ·) ∧
    (∀ line ∈ text.wrapBy columns width, Trimmed line ∧ Within columns width line) ∧
    (2 ≤ width → ∀ line ∈ text.wrapBy columns width, line.widthBy columns ≤ width) ∧
    (text.wrapBy columns width).length ≤ (text.filter (!isBlank ·)).length ∧
    (text.words = [] → text.wrapBy columns width = []) := by
  have kept : (text.wrapBy columns width).flatten.filter (!isBlank ·) =
      text.filter (!isBlank ·) := by
    rw [wrapBy_filter (by decide) positive, List.filter_filter]
    simp only [Bool.and_self]
  have lines := wrapBy_lines gap positive text
  refine ⟨wrapBy_blocks gap positive text, kept, lines, ?_, ?_, ?_⟩
  · intro two line member
    rcases (lines line member).2 with fits | ⟨c, _, wide⟩
    · exact fits
    · exact absurd (Nat.le_trans (narrow c) two) (Nat.not_le_of_lt wide)
  · rw [← kept]
    exact length_le_of_trimmed fun line member => (lines line member).1
  · intro none
    rw [wrapBy, if_neg (Nat.ne_of_gt positive), none]
    rfl

theorem wrap_single_column :
    let columns (c : Char) : Nat := if c = '字' then 2 else if c = '\u0301' then 0 else 1
    let text : Text := "1 字\u0301 2".toList
    (∀ c, columns c ≤ 2) ∧ columns ' ' = 1 ∧ 0 < 1 ∧
      text.wrapBy columns 1 = ["1".toList, "字".toList, "\u0301".toList, "2".toList] ∧
      (∀ line ∈ text.wrapBy columns 1, Trimmed line ∧ Within columns 1 line) ∧
      (text.wrapBy columns 1).flatten.filter (!isBlank ·) = "1字\u03012".toList := by
  intro columns text
  have narrow (c : Char) : columns c ≤ 2 := by
    simp only [columns]
    split_ifs <;> decide
  have gap : columns ' ' = 1 := by decide
  obtain ⟨_, kept, lines, _⟩ := wrap_laws narrow gap Nat.one_pos text
  exact ⟨narrow, gap, Nat.one_pos, by decide, lines, kept.trans (by decide)⟩

end Calculator.Text
