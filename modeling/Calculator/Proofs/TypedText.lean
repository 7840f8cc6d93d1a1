import Mathlib.Data.List.Forall2
import Calculator.Proofs.FrontEnds
import Calculator.Proofs.Literal
import Calculator.Report

namespace Calculator

def Key.characters : Text := "0123456789.+-*/^%".toList

/-- What a typed character makes of the text before it. -/
def enter (before : Text) (c : Char) : Text :=
  if Decimal.isNumeralChar c then before ++ [c]
  else if before = [] ∨ before.getLast?.any Operator.isSymbol then before
  else if c = '%' then before ++ "/100".toList
  else before ++ [c]

def entered (text : Text) : Text := text.foldl enter []

theorem entered_append (text : Text) (c : Char) : entered (text ++ [c]) = enter (entered text) c := by
  simp [entered]

theorem Buffer.accepts_iff (buffer : Buffer) :
    buffer.acceptsOperator ↔ ¬ (buffer = [] ∨ buffer.getLast?.any Operator.isSymbol) := by
  rw [acceptsOperator]
  cases last : buffer.getLast? with
  | none => simp [List.getLast?_eq_none_iff.mp last]
  | some c =>
      have nonempty : buffer ≠ [] := by
        intro empty
        simp [empty] at last
      simp [nonempty]

theorem enter_not_numeral (before : Buffer) {c : Char} (outside : ¬ Decimal.isNumeralChar c) :
    enter before c = if before.acceptsOperator then
      before ++ (if c = '%' then "/100".toList else [c]) else before := by
  have accepts := before.accepts_iff
  rw [enter, if_neg outside]
  by_cases free : before.acceptsOperator
  · rw [if_pos free, if_neg (accepts.mp free)]
    split <;> rfl
  · rw [if_neg free, if_pos (not_not.mp (mt accepts.mpr free))]

theorem Key.kind_of_character {c : Char} (member : c ∈ characters) :
    Decimal.isNumeralChar c ∨ c = '%' ∨ Operator.isSymbol c := by
  have all : characters.all fun c => Decimal.isNumeralChar c || c == '%' || Operator.isSymbol c := by
    decide
  simpa [or_assoc] using List.all_eq_true.mp all c member

theorem Session.press_character (s : Session) {c : Char} (member : c ∈ Key.characters) :
    ∃ key, Key.ofChar? c = some key ∧ (s.press key).buffer = enter s.buffer c ∧
      (s.press key).history = s.history := by
  rcases Key.kind_of_character member with inside | rfl | symbol
  · refine ⟨.digit c, by rw [Key.ofChar?, if_pos inside], ?_, rfl⟩
    rw [enter, if_pos inside]
    rfl
  · refine ⟨.percent, rfl, ?_, rfl⟩
    rw [enter_not_numeral s.buffer (by decide), if_pos rfl]
    rfl
  · rcases Operator.isSymbol_iff.mp symbol with ⟨op, rfl⟩
    have key : Key.ofChar? op.symbol = some (.operator op) := by cases op <;> rfl
    have other : op.symbol ≠ '%' := by cases op <;> decide
    refine ⟨.operator op, key, ?_, rfl⟩
    rw [enter_not_numeral s.buffer (Decimal.symbol_not_numeral op), if_neg other]
    rfl

theorem Session.after_characters {text : Text} (known : text ⊆ Key.characters) :
    (after (text.filterMap Key.ofChar?)).buffer = entered text ∧
      (after (text.filterMap Key.ofChar?)).history = [] := by
  induction text using List.reverseRecOn with
  | nil => exact ⟨rfl, rfl⟩
  | append_singleton text c ih =>
      obtain ⟨buffer, history⟩ := ih fun c member => known (List.mem_append_left _ member)
      obtain ⟨key, found, typed, kept⟩ :=
        (after (text.filterMap Key.ofChar?)).press_character (known List.mem_concat_self)
      have last : (text ++ [c]).filterMap Key.ofChar? = text.filterMap Key.ofChar? ++ [key] := by
        simp [found]
      rw [last, after_append, typed, kept, buffer, entered_append]
      exact ⟨rfl, history⟩

/-- A text without percent signs whose operators all follow a digit or point is typed as it is. -/
theorem entered_eq_self {text : Text} (known : text ⊆ Key.characters) (plain : '%' ∉ text)
    (follows : ∀ front c back, text = front ++ c :: back → Operator.isSymbol c →
      ∃ d ∈ front.getLast?, Decimal.isNumeralChar d) : entered text = text := by
  induction text using List.reverseRecOn with
  | nil => rfl
  | append_singleton text c ih =>
      have earlier : entered text = text := by
        apply ih
        · exact fun c member => known (List.mem_append_left _ member)
        · exact fun member => plain (List.mem_append_left _ member)
        · intro front d back split symbol
          exact follows front d (back ++ [c]) (by rw [split]; simp) symbol
      rw [entered_append, earlier]
      by_cases inside : Decimal.isNumeralChar c
      · rw [enter, if_pos inside]
      · have other : c ≠ '%' := by
          rintro rfl
          exact plain (by simp)
        have symbol : Operator.isSymbol c :=
          ((Key.kind_of_character (known List.mem_concat_self)).resolve_left inside).resolve_left other
        obtain ⟨d, last, numeral⟩ := follows text c [] rfl symbol
        have free : Buffer.acceptsOperator text := by
          rw [Buffer.acceptsOperator, Option.mem_def.mp last]
          simpa using Decimal.numeral_not_symbol numeral
        rw [enter_not_numeral text inside, if_pos free, if_neg other]

theorem Report.ofExpression_buffer (s : Session) : Report.ofExpression s.buffer false =
    match s.recorded? with
    | some entry => ⟨entry.result, true⟩
    | none => ⟨"Error".toList, false⟩ := by
  unfold Session.recorded?
  cases outcome : (evaluate s.buffer : Evaluation Float).outcome with
  | error error => simp [ofExpression, outcome]
  | ok value =>
      by_cases finite : value.isFinite
      · simp [ofExpression, outcome, finite]
      · simp [ofExpression, outcome, finite]

theorem Session.equals_report (s : Session) :
    s.equals.shown = (Report.ofExpression s.buffer false).output ∧
      (s.equals.display = .input ↔ (Report.ofExpression s.buffer false).success) ∧
      ((Report.ofExpression s.buffer false).success → s.equals.history =
        s.history ++ [⟨s.buffer, (Report.ofExpression s.buffer false).output⟩]) := by
  rw [Report.ofExpression_buffer]
  cases recorded : s.recorded? with
  | none =>
      rw [equals_of_none recorded]
      exact ⟨rfl, by simp, by simp⟩
  | some entry =>
      rw [equals_of_some recorded]
      rcases (recorded_eq_some_iff s entry).mp recorded with ⟨value, _, _, rfl⟩
      exact ⟨rfl, by simp, fun _ => rfl⟩

/-- A text typed on either front-end: the session, the buffer, and what equals then shows and records. -/
theorem Session.after_typed_text {text : Text} {strokes : List Keystroke}
    (known : text ⊆ Key.characters) (types : List.Forall₂ Keystroke.Types strokes text) :
    let s := after (LineMode.keys strokes)
    let report := Report.ofExpression (entered text) false
    (∀ size details, (FullScreen.run size { detailsShown := details }
        (strokes.map .key)).1.session = s) ∧
      s.buffer = entered text ∧
      (s.press .equals).shown = report.output ∧
      ((s.press .equals).display = .input ↔ report.success) ∧
      (report.success → (s.press .equals).history = [⟨entered text, report.output⟩]) ∧
      ('%' ∉ text → (∀ front c back, text = front ++ c :: back → Operator.isSymbol c →
        ∃ d ∈ front.getLast?, Decimal.isNumeralChar d) → entered text = text) := by
  intro s report
  have keyed : ∀ c ∈ text, (Key.ofChar? c).isSome := by
    intro c member
    obtain ⟨key, found, _⟩ := ({} : Session).press_character (known member)
    simp [found]
  have typed : s = after (text.filterMap Key.ofChar?) := by
    rw [← LineMode.keys_types types keyed]
  obtain ⟨buffer, history⟩ := after_characters known
  rw [← typed] at buffer history
  have result := s.equals_report
  rw [buffer, history] at result
  obtain ⟨shown, success, recorded⟩ := result
  exact ⟨FullScreen.run_types types keyed, buffer, shown, success, recorded, entered_eq_self known⟩

theorem Session.after_typed_percent :
    let text := "*1.5+%-20%".toList
    let strokes := text.map fun c => ({ code := .char c } : Keystroke)
    (after (LineMode.keys strokes)).buffer = "1.5+20/100".toList ∧
      ((after (LineMode.keys strokes)).press .equals).shown = "1.7".toList := by
  intro text strokes
  have known : text ⊆ Key.characters := by decide
  have types : List.Forall₂ Keystroke.Types strokes text := by
    rw [List.forall₂_map_left_iff, List.forall₂_same]
    exact fun c _ => ⟨rfl, rfl, rfl⟩
  have left : entered text = "1.5+20/100".toList := by decide
  have output : (Report.ofExpression "1.5+20/100".toList false).output = "1.7".toList := by
    decide +kernel
  obtain ⟨_, buffer, shown, _⟩ := after_typed_text known types
  rw [left] at buffer shown
  exact ⟨buffer, shown.trans output⟩

end Calculator
