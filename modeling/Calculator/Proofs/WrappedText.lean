import Mathlib.Data.List.Basic
import Calculator.Expression.Highlight
import Calculator.Expression.Spacing
import Calculator.Text.Wrap

namespace Calculator

namespace Text

theorem closed_flatten (line : Text) : (if line.isEmpty then [] else [line]).flatten = line := by
  cases line with
  | nil => rfl
  | cons c rest => exact List.flatten_singleton

theorem words_flatten (text : Text) : text.words.flatten = text.filter (!isBlank ·) := by
  rw [words, List.flatten_filter_not_isEmpty]
  induction text with
  | nil => rfl
  | cons c rest ih =>
      rw [List.splitOnP_cons_eq_if_modifyHead]
      by_cases blank : isBlank c
      · rw [if_pos blank, List.flatten_cons, ih, List.filter_cons_of_neg (by simp [blank])]
        rfl
      · rw [if_neg blank, List.filter_cons_of_pos (by simp [blank]), ← ih]
        -- splitting gives one piece at least, and the character goes before the first
        cases split : rest.splitOnP isBlank with
        | nil => exact absurd split (List.splitOnP_ne_nil _ _)
        | cons first others => rfl

section

variable {columns : Char → Nat}

theorem pieces_flatten (width room : Nat) (piece word : Text) :
    (pieces columns width room piece word).flatten = piece ++ word := by
  induction word generalizing room piece with
  | nil => rw [pieces, closed_flatten, List.append_nil]
  | cons c rest ih =>
      rw [pieces]
      by_cases fits : columns c ≤ room
      · rw [if_pos fits, ih, List.append_assoc, List.singleton_append]
      · rw [if_neg fits]
        by_cases narrow : columns c ≤ width
        · rw [if_pos narrow, List.flatten_append, closed_flatten, ih, List.singleton_append]
        · rw [if_neg narrow, List.flatten_append, closed_flatten, List.flatten_cons, ih]
          rfl

variable {kept : Char → Bool} (space : kept ' ' = false)
include space

theorem fill_filter (width : Nat) (line : Text) (words : List Text) :
    (fill columns width line words).flatten.filter kept = (line ++ words.flatten).filter kept := by
  induction words generalizing line with
  | nil => rw [fill, closed_flatten, List.flatten_nil, List.append_nil]
  | cons word rest ih =>
      rw [fill]
      by_cases wide : width < word.widthBy columns
      · rw [if_pos wide, List.flatten_append, List.flatten_append, closed_flatten, pieces_flatten,
          List.filter_append, ih]
        simp only [List.nil_append, List.flatten_cons, List.filter_append, List.append_assoc]
      · rw [if_neg wide]
        by_cases empty : line.isEmpty
        · rw [if_pos empty, ih, List.isEmpty_iff.mp empty, List.flatten_cons, List.nil_append]
        · rw [if_neg empty]
          by_cases fits : line.widthBy columns + 1 + word.widthBy columns ≤ width
          · rw [if_pos fits, ih]
            simp [space]
          · rw [if_neg fits, List.flatten_cons, List.filter_append, ih]
            simp only [List.flatten_cons, List.filter_append]

theorem wrapBy_filter {width : Nat} (positive : 0 < width) (text : Text) :
    (text.wrapBy columns width).flatten.filter kept = (text.filter (!isBlank ·)).filter kept := by
  rw [wrapBy, if_neg (Nat.ne_of_gt positive), fill_filter space, List.nil_append, words_flatten]

theorem intercalate_filter (words : List Text) :
    ([' '].intercalate words).filter kept = words.flatten.filter kept := by
  induction words with
  | nil => rfl
  | cons word rest ih =>
      cases rest with
      | nil => simp
      | cons next rest =>
          rw [List.intercalate_cons_cons, List.filter_append, List.filter_append, ih]
          simp [space]

end

section

variable {columns other : Char → Nat}

theorem widthBy_congr {text : Text} (agree : ∀ c ∈ text, columns c = other c) :
    text.widthBy columns = text.widthBy other := by
  induction text with
  | nil => rfl
  | cons c rest ih =>
      obtain ⟨first, others⟩ := List.forall_mem_cons.mp agree
      rw [widthBy, widthBy, first, ih others]

theorem pieces_congr {word : Text} (agree : ∀ c ∈ word, columns c = other c)
    (width room : Nat) (piece : Text) :
    pieces columns width room piece word = pieces other width room piece word := by
  induction word generalizing room piece with
  | nil => rfl
  | cons c rest ih =>
      obtain ⟨first, others⟩ := List.forall_mem_cons.mp agree
      simp only [pieces, first, ih others]

theorem fill_congr (gap : columns ' ' = other ' ') {line : Text}
    (begun : ∀ c ∈ line, columns c = other c) {words : List Text}
    (agree : ∀ word ∈ words, ∀ c ∈ word, columns c = other c) (width : Nat) :
    fill columns width line words = fill other width line words := by
  induction words generalizing line with
  | nil => rfl
  | cons word rest ih =>
      obtain ⟨first, others⟩ := List.forall_mem_cons.mp agree
      have longer : ∀ c ∈ line ++ ' ' :: word, columns c = other c :=
        List.forall_mem_append.mpr ⟨begun, List.forall_mem_cons.mpr ⟨gap, first⟩⟩
      have none_yet : ∀ c ∈ ([] : Text), columns c = other c := List.forall_mem_nil _
      rw [fill, fill, widthBy_congr begun, widthBy_congr first, pieces_congr first,
        ih none_yet others, ih first others, ih longer others]

/-- Lines are a matter of the widths of the characters that are set in them. -/
theorem wrapBy_congr (gap : columns ' ' = other ' ') {text : Text}
    (agree : ∀ c ∈ text.filter (!isBlank ·), columns c = other c) (width : Nat) :
    text.wrapBy columns width = text.wrapBy other width := by
  rw [← words_flatten] at agree
  have words : ∀ word ∈ text.words, ∀ c ∈ word, columns c = other c := fun word member c inside =>
    agree c (List.mem_flatten.mpr ⟨word, member, inside⟩)
  rw [wrapBy, wrapBy, fill_congr gap (List.forall_mem_nil _) words]

end

end Text

theorem loosen_filter (c : Char) : (loosen c).filter (!isBlank ·) = [c].filter (!isBlank ·) := by
  unfold loosen
  split_ifs
  · have space : isBlank ' ' := by decide
    simp [List.filter_cons, space]
  · rfl

theorem spaced_filter (expression : Text) :
    (spaced expression).filter (!isBlank ·) = expression.filter (!isBlank ·) := by
  have space : (!isBlank ' ') = false := by decide
  have loose : (expression.flatMap loosen).filter (!isBlank ·) =
      expression.filter (!isBlank ·) := by
    induction expression with
    | nil => rfl
    | cons c rest ih =>
        rw [List.flatMap_cons, List.filter_append, loosen_filter, ih, ← List.filter_append]
        rfl
  rw [spaced, Text.intercalate_filter space, Text.words_flatten, loose, List.filter_filter]
  simp only [Bool.and_self]

theorem Highlight.number_content (run : Text) : (number run).flatMap Span.content = run := by
  cases run with
  | nil => rfl
  | cons c rest => exact List.append_nil _

theorem Highlight.single_content (base : Style) (c : Char) : (single base c).content = [c] := by
  unfold single
  split_ifs <;> rfl

theorem Highlight.spans_content (base : Style) (expression : Text) :
    (spans base expression).flatMap Span.content = expression := by
  suffices general : ∀ run, (after base run expression).flatMap Span.content = run ++ expression by
    exact general []
  induction expression with
  | nil =>
      intro run
      rw [after, number_content, List.append_nil]
  | cons c rest ih =>
      intro run
      rw [after]
      split_ifs
      · rw [ih, List.append_assoc, List.singleton_append]
      · rw [List.flatMap_append, number_content, List.flatMap_cons, single_content, ih]
        rfl

end Calculator
