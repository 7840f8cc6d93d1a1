import Mathlib.Data.List.Forall2
import Calculator.Proofs.Acceptance
import Calculator.Proofs.BufferShape
import Calculator.Proofs.Moments
import Calculator.Proofs.WrappedText

namespace Calculator

theorem blank_of_known {c : Char} (known : Known c) : isBlank c = false := by
  rcases known with numeral | symbol
  · rcases Decimal.isNumeralChar_iff.mp numeral with digit | rfl
    · have bounds : 48 ≤ c.toNat ∧ c.toNat ≤ 57 := by
        simpa [Char.isDigit, UInt32.le_iff_toNat_le] using digit
      simp only [isBlank, blankRanges, List.any_cons, List.any_nil, Bool.or_false,
        Bool.or_eq_false_iff, Bool.and_eq_false_iff, decide_eq_false_iff_not]
      omega
    · decide
  · rcases Operator.isSymbol_iff.mp symbol with ⟨op, rfl⟩
    cases op <;> decide

theorem equals_not_known : ¬ Known '=' := by
  unfold Known
  decide

theorem Session.recorded_expression {keys : List Key} (typed : ∀ key ∈ keys, key.Typed)
    {entry : Entry} (member : entry ∈ (after keys).history) :
    entry.expression ≠ [] ∧ ∀ c ∈ entry.expression, Known c := by
  rw [history_after] at member
  rcases List.mem_filterMap.mp member with ⟨i, _, recorded⟩
  have shaped := after_shaped (keys.take i) fun key taken => typed key (List.mem_of_mem_take taken)
  rcases (recorded_eq_some_iff _ entry).mp recorded with ⟨value, outcome, _, rfl⟩
  refine ⟨?_, shaped.known⟩
  intro empty
  rw [show (after (keys.take i)).buffer = [] from empty, outcome_nil] at outcome
  cases outcome

namespace FullScreen

namespace HistoryPanel

def itemText (item : List Span) : Text := item.flatMap Span.content

/-- A group of lines displays an entry: the first is marked and the others are indented, the last
one and no other ends with the result, and what is left of them is the expression but for spaces. -/
structure Displays (entry : Entry) (group : List Text) : Prop where
  nonempty : group ≠ []
  parts : ∃ bodies : List Text,
    group = bodies.mapIdx (fun i body =>
      (if i = 0 then "> ".toList else "  ".toList) ++ body ++
        if i + 1 = bodies.length then " = ".toList ++ entry.result else []) ∧
    bodies.flatten.filter (· ≠ ' ') = entry.expression
  last_only : ∀ line ∈ group.dropLast, ¬ " = ".toList ++ entry.result <:+ line

def lines (width : Nat) (history : History) : List Text :=
  history.flatMap fun entry => Text.wrap width (spaced entry.expression)

theorem items_length (width : Nat) (history : History) :
    (items width history).length = (lines width history).length := by
  simp [items, lines, entryItems, itemsOfLines, List.length_flatMap]

theorem wrapWidth_pos {size : Size} (fit : fits size = true) (details : Bool) :
    0 < wrapWidth (historyArea size details) := by
  have wide : minWidth ≤ size.width := (by simpa [fits] using fit : _ ∧ _).1
  simp only [minWidth] at wide
  simp only [wrapWidth, historyArea, Area.inner, keypadWidth]
  omega

theorem itemsOfLines_text (result : Text) (lines : List Text) :
    (itemsOfLines result lines).map itemText = lines.mapIdx fun i line =>
      (if i = 0 then "> ".toList else "  ".toList) ++ line ++
        if i + 1 = lines.length then " = ".toList ++ result else [] := by
  apply List.ext_getElem?
  intro i
  rw [itemsOfLines, List.getElem?_map, List.getElem?_mapIdx, List.getElem?_mapIdx, Option.map_map]
  congr 1
  funext line
  have marked : (marker (i == 0)).content = if i = 0 then "> ".toList else "  ".toList := by
    by_cases first : i = 0 <;> simp [marker, first]
  have closed : (if i + 1 = lines.length then resultSpans result else []).flatMap Span.content =
      if i + 1 = lines.length then " = ".toList ++ result else [] := by
    split_ifs <;> simp [resultSpans]
  simp only [Function.comp_apply, itemText, List.cons_append, List.flatMap_cons,
    List.flatMap_append, marked, Highlight.spans_content, closed, List.append_assoc]

section

variable {width : Nat} (positive : 0 < width) {entry : Entry}
  (nonempty : entry.expression ≠ []) (known : ∀ c ∈ entry.expression, Known c)
include positive known

theorem wrap_spaced_filter :
    (Text.wrap width (spaced entry.expression)).flatten.filter (· ≠ ' ') = entry.expression := by
  have unblank : ∀ c ∈ entry.expression, isBlank c = false := fun c member =>
    blank_of_known (known c member)
  have other : ∀ c ∈ entry.expression, c ≠ ' ' := by
    rintro c member rfl
    exact absurd (unblank ' ' member) (by decide)
  have words : entry.expression.filter (!isBlank ·) = entry.expression :=
    List.filter_eq_self.mpr (by simpa using unblank)
  rw [Text.wrap, Text.wrapBy_filter (by decide) positive, spaced_filter, words]
  exact List.filter_eq_self.mpr (by simpa using other)

theorem equals_not_mem {line : Text} (member : line ∈ Text.wrap width (spaced entry.expression)) :
    '=' ∉ line := by
  intro present
  have kept : '=' ∈ (Text.wrap width (spaced entry.expression)).flatten.filter (· ≠ ' ') :=
    List.mem_filter.mpr ⟨List.mem_flatten.mpr ⟨line, member, present⟩, by decide⟩
  rw [wrap_spaced_filter positive known] at kept
  exact equals_not_known (known '=' kept)

include nonempty

theorem wrap_spaced_nonempty : Text.wrap width (spaced entry.expression) ≠ [] := by
  intro none
  have whole := wrap_spaced_filter positive known
  rw [none] at whole
  exact nonempty whole.symm

theorem entryItems_displays : Displays entry ((entryItems width entry).map itemText) := by
  have texts := itemsOfLines_text entry.result (Text.wrap width (spaced entry.expression))
  refine ⟨?_, ⟨_, texts, wrap_spaced_filter positive known⟩, ?_⟩
  · rw [entryItems, texts, ne_eq, List.mapIdx_eq_nil_iff]
    exact wrap_spaced_nonempty positive nonempty known
  · intro line member ends
    rw [entryItems, texts] at member
    obtain ⟨i, bound, rfl⟩ := List.mem_iff_getElem.mp member
    have earlier : i + 1 < (Text.wrap width (spaced entry.expression)).length := by
      simpa [Nat.lt_sub_iff_add_lt] using bound
    have present : '=' ∈ (Text.wrap width (spaced entry.expression))[i] := by
      have inside := ends.mem (a := '=') (by simp)
      rw [List.getElem_dropLast, List.getElem_mapIdx, if_neg (Nat.ne_of_lt earlier),
        List.append_nil] at inside
      refine (List.mem_append.mp inside).resolve_left ?_
      split_ifs <;> decide
    exact equals_not_mem positive known (List.getElem_mem _) present

end

end HistoryPanel

namespace App

variable {app : App} {area : Area}

theorem countHistory_of_empty (empty : app.session.history = []) :
    app.countHistory area = { app with listHeight := area.inner.height } := by
  exact if_pos (List.isEmpty_iff.mpr empty)

theorem countHistory_of_nonempty (nonempty : app.session.history ≠ []) :
    app.countHistory area =
      let lines := (HistoryPanel.lines (HistoryPanel.wrapWidth area) app.session.history).length
      let last := lines - area.inner.height
      { app with
        listHeight := area.inner.height
        historyLines := lines
        historyScroll := if app.followNewest then last else min app.historyScroll last
        followNewest := false } := by
  unfold countHistory
  dsimp only
  rw [if_neg (by simpa using nonempty), ← HistoryPanel.items_length]
  cases follows : app.followNewest <;> rfl

section

variable {size : Size} (main : app.helpOpen = false) (fit : fits size = true)
include main fit

theorem meet_draw_of_empty (empty : app.session.history = []) :
    app.meet (.draw size) = { app with
      tooSmall := false
      listHeight := (historyArea size app.detailsShown).inner.height } :=
  (meet_main main _).trans ((if_pos fit).trans (countHistory_of_empty empty))

theorem meet_draw_of_nonempty (nonempty : app.session.history ≠ []) :
    app.meet (.draw size) =
      let area := historyArea size app.detailsShown
      let lines := (HistoryPanel.lines (HistoryPanel.wrapWidth area) app.session.history).length
      let last := lines - area.inner.height
      { app with
        tooSmall := false
        listHeight := area.inner.height
        historyLines := lines
        historyScroll := if app.followNewest then last else min app.historyScroll last
        followNewest := false } :=
  (meet_main main _).trans ((if_pos fit).trans (countHistory_of_nonempty nonempty))

end

theorem after_recorded {details : Bool} {moments : List Moment} {entry : Entry}
    (member : entry ∈ (after details moments).session.history) :
    entry.expression ≠ [] ∧ ∀ c ∈ entry.expression, Known c := by
  rw [after_session] at member
  exact Session.recorded_expression (presses_typed _ moments) member

/-- The items of the panel are the entries' groups, and a draw counts them all. -/
theorem items_display_history {details : Bool} {moments : List Moment} {size : Size}
    (fit : fits size = true) (recorded : (after details moments).session.history ≠ []) :
    let app := after details moments
    let area := historyArea size app.detailsShown
    let items := HistoryPanel.items (HistoryPanel.wrapWidth area) app.session.history
    (∃ groups, items = groups.flatten ∧ List.Forall₂ (fun entry group =>
        HistoryPanel.Displays entry (group.map HistoryPanel.itemText)) app.session.history groups) ∧
      (app.countHistory area).historyLines = items.length ∧
      (app.helpOpen = false → (app.meet (.draw size)).historyLines = items.length) := by
  intro app area items
  have positive := HistoryPanel.wrapWidth_pos fit app.detailsShown
  refine ⟨⟨app.session.history.map (HistoryPanel.entryItems (HistoryPanel.wrapWidth area)),
    List.flatMap_def, ?_⟩, ?_, ?_⟩
  · rw [List.forall₂_map_right_iff, List.forall₂_same]
    intro entry member
    obtain ⟨nonempty, known⟩ := after_recorded member
    exact HistoryPanel.entryItems_displays positive nonempty known
  · rw [countHistory_of_nonempty recorded]
    exact (HistoryPanel.items_length _ _).symm
  · intro main
    rw [meet_draw_of_nonempty main fit recorded]
    exact (HistoryPanel.items_length _ _).symm

theorem items_display_sum :
    let moments := "1+2+3+4+5+6=".toList.map fun c => Moment.key (.char c)
    let items := HistoryPanel.items 17 [⟨"1+2+3+4+5+6".toList, "21".toList⟩]
    fits ⟨50, 19⟩ = true ∧
      (after false moments).session.history = [⟨"1+2+3+4+5+6".toList, "21".toList⟩] ∧
      (∃ groups, items = groups.flatten ∧ List.Forall₂ (fun entry group =>
        HistoryPanel.Displays entry (group.map HistoryPanel.itemText))
          [⟨"1+2+3+4+5+6".toList, "21".toList⟩] groups) ∧
      items.map HistoryPanel.itemText =
        ["> 1 + 2 + 3 + 4 + 5".toList, "  + 6 = 21".toList] ∧
      ((after false moments).meet (.draw ⟨50, 19⟩)).historyLines = 2 := by
  intro moments items
  have fit : fits ⟨50, 19⟩ = true := by decide
  have history : (after false moments).session.history =
      [⟨"1+2+3+4+5+6".toList, "21".toList⟩] := by decide +kernel
  have main : (after false moments).helpOpen = false := by decide +kernel
  have width (details : Bool) :
      HistoryPanel.wrapWidth (historyArea ⟨50, 19⟩ details) = 17 := by decide +revert
  have recorded : (after false moments).session.history ≠ [] := by
    rw [history]
    exact List.cons_ne_nil _ _
  have shown := items_display_history fit recorded
  simp only [history, width] at shown
  obtain ⟨groups, _, counted⟩ := shown
  exact ⟨fit, history, groups, by decide, (counted main).trans (by decide)⟩

end App

end FullScreen

end Calculator
