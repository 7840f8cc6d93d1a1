import Calculator.Proofs.HistoryRows
import Calculator.Proofs.WrappedLines

namespace Calculator

theorem charWidth_of_known {c : Char} (known : Known c) : charWidth c = 1 := by
  rcases known with numeral | symbol
  · rcases Decimal.isNumeralChar_iff.mp numeral with digit | rfl
    · have bounds : 48 ≤ c.toNat ∧ c.toNat ≤ 57 := by
        simpa [Char.isDigit, UInt32.le_iff_toNat_le] using digit
      have low : c.toNat < 0x300 := by omega
      exact if_pos low
    · decide
  · obtain ⟨op, rfl⟩ := Operator.isSymbol_iff.mp symbol
    cases op <;> decide

namespace Text

theorem width_append (front back : Text) : width (front ++ back) = front.width + back.width :=
  widthBy_append front back

theorem width_of_narrow {text : Text} (narrow : ∀ c ∈ text, charWidth c = 1) :
    text.width = text.length := by
  induction text with
  | nil => rfl
  | cons c rest ih =>
      obtain ⟨first, others⟩ := List.forall_mem_cons.mp narrow
      change charWidth c + width rest = _
      rw [first, ih others, List.length_cons, Nat.add_comm]

theorem range_map_getD (text : Text) (width : Nat) :
    ((List.range width).map fun column => text[column]?.getD ' ') =
      (text.take width).rightpad width ' ' := by
  apply List.ext_getElem?
  intro column
  rw [List.rightpad, List.getElem?_append, List.getElem?_take, List.getElem?_map,
    List.getElem?_replicate, List.length_take]
  rcases Nat.lt_or_ge column width with inside | outside
  · rw [List.getElem?_range inside, Option.map_some]
    rcases Nat.lt_or_ge column text.length with reached | past
    · rw [if_pos (Nat.lt_min.mpr ⟨inside, reached⟩), if_pos inside, List.getElem?_eq_getElem reached]
      rfl
    · rw [List.getElem?_eq_none past, if_neg (by omega), if_pos (by omega)]
      rfl
  · have none_left : (List.range width)[column]? = none := List.getElem?_eq_none (by simpa)
    rw [none_left, if_neg (by omega), if_neg (by omega)]
    rfl

theorem prefix_rightpad_iff {text : Text} {width : Nat} :
    text <+: (text.take width).rightpad width ' ' ↔ text.length ≤ width := by
  constructor
  · intro starts
    have bound := starts.length_le
    rw [List.rightpad, List.length_append, List.length_replicate, List.length_take] at bound
    omega
  · intro fits
    rw [List.take_of_length_le fits]
    exact List.prefix_append _ _

end Text

theorem Session.result_known {keys : List Key} {entry : Entry}
    (member : entry ∈ (after keys).history) : ∀ c ∈ entry.result, Known c := by
  rw [history_after] at member
  obtain ⟨i, _, recorded⟩ := List.mem_filterMap.mp member
  exact (recorded_shaped recorded).known

namespace FullScreen

namespace HistoryPanel

/-- The last line of an entry: that of its expression, and the result. -/
def closing (width : Nat) (entry : Entry) : Text :=
  (Text.wrap width (spaced entry.expression)).getLastD [] ++ " = ".toList ++ entry.result

def rowText (screen : Screen) (area : Area) (row : Nat) : Text :=
  (List.range area.width).map fun column =>
    ((screen.cell? (area.top + row) (area.left + column)).getD {}).glyph

theorem cells_glyph (item : List Span) :
    (item.flatMap Span.cells).map Cell.glyph = itemText item := by
  simp [itemText, List.map_flatMap, Span.cells, Function.comp_def]

theorem itemCell_glyph (items : List (List Span)) (number column : Nat) :
    (itemCell items number column).glyph =
      (itemText (items[number]?.getD []))[column]?.getD ' ' := by
  rw [itemCell, ← cells_glyph, List.getElem?_map]
  cases ((items[number]?.getD []).flatMap Span.cells)[column]? with
  | none => rfl
  | some cell => rfl

theorem Shows.row_reads {screen : Screen} {area : Area} {items : List (List Span)}
    (shown : Shows screen area items 0) {row : Nat} (low : row < area.height) :
    rowText screen area row =
      ((itemText (items[row]?.getD [])).take area.width).rightpad area.width ' ' := by
  rw [rowText, ← Text.range_map_getD]
  refine List.map_congr_left fun column member => ?_
  rw [shown row low column (List.mem_range.mp member), Nat.zero_add, Option.getD_some,
    itemCell_glyph]

theorem narrow_of_mem_wrap {width : Nat} (positive : 0 < width) {entry : Entry}
    (known : ∀ c ∈ entry.expression, Known c) {line : Text}
    (member : line ∈ Text.wrap width (spaced entry.expression)) : ∀ c ∈ line, charWidth c = 1 := by
  intro c inside
  by_cases space : c = ' '
  · subst space
    decide
  · have kept : c ∈ (Text.wrap width (spaced entry.expression)).flatten.filter (· ≠ ' ') :=
      List.mem_filter.mpr ⟨List.mem_flatten.mpr ⟨line, member, inside⟩, by simpa using space⟩
    rw [wrap_spaced_filter positive known] at kept
    exact charWidth_of_known (known c kept)

theorem wrap_spaced_width {width : Nat} (positive : 0 < width) {entry : Entry}
    (known : ∀ c ∈ entry.expression, Known c) :
    ∀ line ∈ Text.wrap width (spaced entry.expression), Text.width line ≤ width := by
  intro line member
  have gap : charWidth ' ' = 1 := rfl
  rcases (Text.wrapBy_lines gap positive _ line member).2 with within | ⟨c, rfl, wide⟩
  · exact within
  · have one := narrow_of_mem_wrap positive known member c (List.mem_singleton_self c)
    omega

theorem itemText_marked (first : Bool) (base : Style) (line : Text) (rest : List Span) :
    itemText (marker first :: Highlight.spans base line ++ rest) =
      (marker first).content ++ (line ++ itemText rest) := by
  simp only [itemText, List.cons_append, List.flatMap_cons, List.flatMap_append,
    Highlight.spans_content]

theorem itemText_resultSpans (result : Text) :
    itemText (resultSpans result) = " = ".toList ++ result := by
  simp [itemText, resultSpans]

theorem marker_width (first : Bool) : Text.width (marker first).content = 2 := by
  cases first <;> decide

theorem itemsOfLines_concat (result : Text) (earlier : List Text) (last : Text) :
    itemsOfLines result (earlier ++ [last]) =
      (earlier.mapIdx fun i line =>
        marker (i == 0) :: Highlight.spans { foreground := some .cyan } line) ++
      [marker (earlier.length == 0) :: Highlight.spans { foreground := some .cyan } last ++
        resultSpans result] := by
  rw [itemsOfLines, List.mapIdx_concat]
  congr 1
  · apply List.mapIdx_eq_mapIdx_iff.mpr
    intro i inside
    have open_line : i + 1 ≠ (earlier ++ [last]).length := by
      rw [List.length_append, List.length_singleton]
      omega
    rw [if_neg open_line, List.append_nil]
  · rw [if_pos (by simp)]

theorem entryItems_width {width : Nat} (positive : 0 < width) {entry : Entry}
    (nonempty : entry.expression ≠ []) (known : ∀ c ∈ entry.expression, Known c) :
    ∃ earlier last line, entryItems width entry = earlier ++ [last] ∧
      (∀ item ∈ earlier, Text.width (itemText item) ≤ 2 + width) ∧
      Text.width (itemText last) = 2 + Text.width (closing width entry) ∧
      closing width entry = line ++ " = ".toList ++ entry.result ∧ Text.width line ≤ width := by
  have fits := wrap_spaced_width positive known
  have some_line := wrap_spaced_nonempty positive nonempty known
  obtain ⟨earlier, last, split⟩ :=
    (Text.wrap width (spaced entry.expression)).eq_nil_or_concat.resolve_left some_line
  rw [List.concat_eq_append] at split
  rw [split] at fits
  have whole : closing width entry = last ++ " = ".toList ++ entry.result := by
    rw [closing, split, List.getLastD_concat]
  have group := itemsOfLines_concat entry.result earlier last
  rw [← split] at group
  refine ⟨_, _, last, group, ?_, ?_, whole, fits last (by simp)⟩
  · intro item member
    obtain ⟨i, inside, rfl⟩ := List.mem_mapIdx.mp member
    have text := itemText_marked (i == 0) { foreground := some .cyan } earlier[i] []
    rw [List.append_nil, show itemText [] = [] from rfl, List.append_nil] at text
    rw [text, Text.width_append, marker_width]
    exact Nat.add_le_add_left (fits earlier[i] (by simp)) 2
  · rw [itemText_marked, itemText_resultSpans, Text.width_append, marker_width, whole,
      List.append_assoc]

theorem itemText_narrow {width : Nat} (positive : 0 < width) {entry : Entry}
    (known : ∀ c ∈ entry.expression, Known c) (result : ∀ c ∈ entry.result, Known c) :
    ∀ item ∈ entryItems width entry, ∀ c ∈ itemText item, charWidth c = 1 := by
  intro item member c inside
  obtain ⟨i, low, rfl⟩ := List.mem_mapIdx.mp member
  have line := narrow_of_mem_wrap positive known (List.getElem_mem low)
  have marks (first : Bool) : ∀ c ∈ (marker first).content, charWidth c = 1 := by
    cases first <;> simp [marker, charWidth]
  rw [itemText_marked, List.mem_append, List.mem_append] at inside
  rcases inside with marked | own | closed
  · exact marks _ c marked
  · exact line c own
  · split at closed
    case isFalse => cases closed
    case isTrue =>
      have sign : ∀ c ∈ " = ".toList, charWidth c = 1 := by simp [charWidth]
      rw [itemText_resultSpans] at closed
      exact (List.mem_append.mp closed).elim (sign c) fun own => charWidth_of_known (result c own)

theorem inner_width {size : Size} (fit : fits size = true) (details : Bool) :
    (historyArea size details).inner.width = 2 + wrapWidth (historyArea size details) := by
  obtain ⟨wide, _⟩ := fits_iff.mp fit
  simp only [wrapWidth, historyArea, Area.inner, keypadWidth]
  omega

end HistoryPanel

namespace App

/-- The items are the same whatever widths characters have that stand in no expression. -/
theorem items_wrapBy {columns : Char → Nat} (gap : columns ' ' = 1)
    (known : ∀ c, Known c → columns c = 1) (width : Nat) (details : Bool)
    (moments : List Moment) :
    HistoryPanel.items width (after details moments).session.history =
      (after details moments).session.history.flatMap fun entry =>
        HistoryPanel.itemsOfLines entry.result
          (Text.wrapBy columns width (spaced entry.expression)) := by
  apply List.flatMap_congr
  intro entry member
  have agree : ∀ c ∈ (spaced entry.expression).filter (!isBlank ·), charWidth c = columns c := by
    intro c kept
    rw [spaced_filter] at kept
    have own := (after_recorded member).2 c (List.mem_of_mem_filter kept)
    rw [charWidth_of_known own, known c own]
  rw [HistoryPanel.entryItems, Text.wrap, Text.wrapBy_congr (Eq.trans (by decide) gap.symm) agree]

/-- The items fit their panel exactly when every result has room behind the last line of its
expression. What is cut off otherwise is the end of that line, as the rows of the panel show. -/
theorem items_fit_iff {details : Bool} {moments : List Moment} {size : Size}
    (fit : fits size = true) (recorded : (after details moments).session.history ≠ []) :
    let app := after details moments
    let area := historyArea size app.detailsShown
    let width := HistoryPanel.wrapWidth area
    let items := HistoryPanel.items width app.session.history
    let drawn := after details (moments ++ [.draw size])
    ((∀ item ∈ items, Text.width (HistoryPanel.itemText item) ≤ area.inner.width) ↔
        ∀ entry ∈ app.session.history, Text.width (HistoryPanel.closing width entry) ≤ width) ∧
      (∀ entry ∈ app.session.history, ∃ earlier last line,
        HistoryPanel.entryItems width entry = earlier ++ [last] ∧
        (∀ item ∈ earlier, Text.width (HistoryPanel.itemText item) ≤ area.inner.width) ∧
        Text.width (HistoryPanel.itemText last) = 2 + Text.width (HistoryPanel.closing width entry) ∧
        HistoryPanel.closing width entry = line ++ " = ".toList ++ entry.result ∧
        Text.width line ≤ width) ∧
      (app.helpOpen = false → ∀ row < area.inner.height,
        let text := HistoryPanel.itemText (items[row]?.getD [])
        let shown := HistoryPanel.rowText (drawn.screen size) area.inner row
        shown = (text.take area.inner.width).rightpad area.inner.width ' ' ∧
          (text <+: shown ↔ Text.width text ≤ area.inner.width)) := by
  intro app area width items drawn
  have positive : 0 < width := HistoryPanel.wrapWidth_pos fit app.detailsShown
  have inner : area.inner.width = 2 + width := HistoryPanel.inner_width fit app.detailsShown
  have parts : ∀ entry ∈ app.session.history, _ := fun entry member =>
    HistoryPanel.entryItems_width positive (after_recorded member).1 (after_recorded member).2
  refine ⟨?_, by rw [inner]; exact parts, ?_⟩
  · rw [inner, show items = app.session.history.flatMap (HistoryPanel.entryItems width) from rfl,
      List.forall_mem_flatMap]
    refine forall₂_congr fun entry member => ?_
    obtain ⟨earlier, last, _, group, fits, closed, _⟩ := parts entry member
    rw [group, List.forall_mem_append, List.forall_mem_singleton, closed]
    exact ⟨fun both => Nat.le_of_add_le_add_left both.2,
      fun room => ⟨fits, Nat.add_le_add_left room 2⟩⟩
  · intro main row low text shown
    have reads : shown = (text.take area.inner.width).rightpad area.inner.width ' ' := by
      have seen := (meet_draw_shows main fit recorded).row_reads low
      rw [← after_append] at seen
      exact seen
    have narrow : ∀ c ∈ text, charWidth c = 1 := by
      intro c inside
      cases found : items[row]? with
      | none => simp [text, found, HistoryPanel.itemText] at inside
      | some item =>
          obtain ⟨entry, member, own⟩ := List.mem_flatMap.mp (List.mem_of_getElem? found)
          refine HistoryPanel.itemText_narrow positive (after_recorded member).2 ?_ item own c ?_
          · rw [after_session] at member
            exact Session.result_known member
          · simpa [text, found] using inside
    refine ⟨reads, ?_⟩
    rw [reads, Text.prefix_rightpad_iff, Text.width_of_narrow narrow]

theorem items_fit_sum :
    let moments := "1+2+3+4+5+6=".toList.map fun c => Moment.key (.char c)
    let history := (after false moments).session.history
    let items := HistoryPanel.items 17 history
    let drawn := after false (moments ++ [.draw ⟨50, 19⟩])
    fits ⟨50, 19⟩ = true ∧ history ≠ [] ∧
      items.map HistoryPanel.itemText = ["> 1 + 2 + 3 + 4 + 5".toList, "  + 6 = 21".toList] ∧
      (∀ item ∈ items, Text.width (HistoryPanel.itemText item) ≤ 19) ∧
      "  + 6 = 21".toList <+: HistoryPanel.rowText (drawn.screen ⟨50, 19⟩) ⟨30, 4, 19, 13⟩ 1 := by
  intro moments history items drawn
  have fit : fits ⟨50, 19⟩ = true := by decide
  have recorded : (after false moments).session.history ≠ [] := by decide +kernel
  have main : (after false moments).helpOpen = false := by decide +kernel
  have details : (after false moments).detailsShown = false := by decide +kernel
  have texts : items.map HistoryPanel.itemText =
      ["> 1 + 2 + 3 + 4 + 5".toList, "  + 6 = 21".toList] := by decide +kernel
  have second : HistoryPanel.itemText (items[1]?.getD []) = "  + 6 = 21".toList := by
    decide +kernel
  have room : ∀ entry ∈ history, Text.width (HistoryPanel.closing 17 entry) ≤ 17 := by
    decide +kernel
  have laws := items_fit_iff fit recorded
  dsimp only at laws
  rw [details] at laws
  obtain ⟨fit_iff, _, rows⟩ := laws
  have whole : HistoryPanel.itemText (items[1]?.getD []) <+:
      HistoryPanel.rowText (drawn.screen ⟨50, 19⟩) ⟨30, 4, 19, 13⟩ 1 := by
    refine (rows main 1 (by decide)).2.mpr ?_
    change Text.width (HistoryPanel.itemText (items[1]?.getD [])) ≤ 19
    rw [second]
    decide
  rw [second] at whole
  exact ⟨fit, recorded, texts, fit_iff.mpr room, whole⟩

/-- A sum of three numbers is cut off in the middle of its result. -/
theorem result_cut_off :
    let moments := "12+34+56=".toList.map fun c => Moment.key (.char c)
    let history := (after false moments).session.history
    let items := HistoryPanel.items 17 history
    let drawn := after false (moments ++ [.draw ⟨50, 19⟩])
    fits ⟨50, 19⟩ = true ∧ history = [⟨"12+34+56".toList, "102".toList⟩] ∧
      (historyArea ⟨50, 19⟩ (after false moments).detailsShown).inner = ⟨30, 4, 19, 13⟩ ∧
      ¬ (∀ item ∈ items, Text.width (HistoryPanel.itemText item) ≤ 19) ∧
      HistoryPanel.rowText (drawn.screen ⟨50, 19⟩) ⟨30, 4, 19, 13⟩ 0 =
        "> 12 + 34 + 56 = 10".toList := by
  decide +kernel

end App

end FullScreen

end Calculator
