import Mathlib.Data.List.Chain
import Calculator.Proofs.HistoryItems
import Calculator.Proofs.WrappedText

/-! Tokens, words and spans of an expression are the same pieces of its text.

Spacing puts blanks around operators alone, so between two of them a run of digits and points is a word
by itself. Colours gather such a run up to the character that ends it. Both part the text where the
scan does, and on a spaced expression the colours add a span for each space. -/

namespace Calculator

namespace Text

theorem words_append_blank {c : Char} (blank : isBlank c = true) (front back : Text) :
    words (front ++ c :: back) = front.words ++ words back := by
  rw [words, List.splitOnP_append_cons front back blank, List.filter_append]
  rfl

theorem words_cons_blank {c : Char} (blank : isBlank c = true) (rest : Text) :
    words (c :: rest) = words rest :=
  words_append_blank blank [] rest

theorem words_word {word : Text} (nonempty : word ≠ []) (nonblank : ∀ c ∈ word, isBlank c = false) :
    words word = [word] := by
  rw [words, List.splitOnP_eq_singleton nonblank]
  simp [nonempty]

theorem words_append {word rest : Text} (nonempty : word ≠ [])
    (nonblank : ∀ c ∈ word, isBlank c = false) (apart : ∀ c ∈ rest.head?, isBlank c = true) :
    words (word ++ rest) = word :: words rest := by
  cases rest with
  | nil =>
      rw [List.append_nil, words_word nonempty nonblank]
      rfl
  | cons c rest =>
      have blank : isBlank c = true := apart c rfl
      rw [words_append_blank blank, words_word nonempty nonblank, words_cons_blank blank]
      rfl

end Text

theorem loosen_plain {run : Text} (plain : ∀ c ∈ run, ¬ Operator.isSymbol c) :
    run.flatMap loosen = run := by
  induction run with
  | nil => rfl
  | cons c run ih =>
      obtain ⟨first, others⟩ := List.forall_mem_cons.mp plain
      rw [List.flatMap_cons, ih others, loosen, if_neg first]
      rfl

theorem loosen_numeral {run : Text} (numeral : ∀ c ∈ run, Decimal.isNumeralChar c) :
    run.flatMap loosen = run :=
  loosen_plain fun c member => Decimal.numeral_not_symbol (numeral c member)

theorem loosen_symbol (op : Operator) : loosen op.symbol = [' ', op.symbol, ' '] :=
  if_pos (Operator.isSymbol_iff.mpr ⟨op, rfl⟩)

theorem loosen_apart {rest : Text} (known : ∀ c ∈ rest, Known c)
    (ends : ∀ c ∈ rest.head?, ¬ Decimal.isNumeralChar c) :
    ∀ c ∈ (rest.flatMap loosen).head?, isBlank c = true := by
  cases rest with
  | nil => simp
  | cons c rest =>
      have symbol := (known c List.mem_cons_self).resolve_left (ends c rfl)
      obtain ⟨op, rfl⟩ := Operator.isSymbol_iff.mp symbol
      rw [List.flatMap_cons, loosen_symbol]
      rintro d ⟨⟩
      decide

namespace Token

def style (base : Style) : Token → Style
  | numeral _ => Highlight.numberStyle
  | operator _ => Highlight.operatorStyle
  | unexpected _ => base

def span (base : Style) (token : Token) : Span := ⟨token.text, token.style base⟩

inductive Plain : Token → Prop
  | numeral {run : Text} (nonempty : run ≠ []) (inside : ∀ c ∈ run, Decimal.isNumeralChar c) :
      Plain (numeral run)
  | operator (op : Operator) : Plain (operator op)

theorem Reads.plain {text : Text} {tokens : List Token} (reads : Reads text tokens)
    (known : ∀ c ∈ text, Known c) : ∀ token ∈ tokens, token.Plain := by
  induction reads with
  | done => simp
  | numeral maximal tail ih =>
      obtain ⟨_, later⟩ := List.forall_mem_append.mp known
      exact List.forall_mem_cons.mpr ⟨.numeral maximal.nonempty maximal.numeral, ih later⟩
  | operator op tail ih =>
      obtain ⟨_, later⟩ := List.forall_mem_cons.mp known
      exact List.forall_mem_cons.mpr ⟨.operator op, ih later⟩
  | unexpected rest unknown => exact absurd (known _ List.mem_cons_self) unknown

theorem Reads.words {text : Text} {tokens : List Token} (reads : Reads text tokens)
    (known : ∀ c ∈ text, Known c) : Text.words (text.flatMap loosen) = tokens.map Token.text := by
  induction reads with
  | done => rfl
  | @numeral run rest tokens maximal tail ih =>
      obtain ⟨front, later⟩ := List.forall_mem_append.mp known
      have nonblank : ∀ c ∈ run, isBlank c = false := fun c member => blank_of_known (front c member)
      rw [List.flatMap_append, loosen_numeral maximal.numeral,
        Text.words_append maximal.nonempty nonblank (loosen_apart later maximal.ends), ih later]
      rfl
  | @operator rest tokens op tail ih =>
      obtain ⟨symbol, later⟩ := List.forall_mem_cons.mp known
      have space : isBlank ' ' = true := by decide
      have nonblank : ∀ c ∈ [op.symbol], isBlank c = false :=
        List.forall_mem_singleton.mpr (blank_of_known symbol)
      calc
        Text.words ((op.symbol :: rest).flatMap loosen) =
            Text.words (' ' :: ([op.symbol] ++ ' ' :: rest.flatMap loosen)) := by
          rw [List.flatMap_cons, loosen_symbol]
          rfl
        _ = [op.symbol] :: Text.words (rest.flatMap loosen) := by
          rw [Text.words_cons_blank space, Text.words_append_blank space,
            Text.words_word (List.cons_ne_nil _ _) nonblank]
          rfl
        _ = (Token.operator op :: tokens).map Token.text := by
          rw [ih later]
          rfl
  | unexpected rest unknown => exact absurd (known _ List.mem_cons_self) unknown

end Token

theorem spaced_tokens {text : Text} (known : ∀ c ∈ text, Known c) :
    spaced text = [' '].intercalate ((Token.scan text).map Token.text) := by
  rw [spaced, (Token.reads_scan text).words known]

namespace Highlight

variable (base : Style)

theorem after_run {run : Text} (numeral : ∀ c ∈ run, Decimal.isNumeralChar c) (begun rest : Text) :
    after base begun (run ++ rest) = after base (begun ++ run) rest := by
  induction run generalizing begun with
  | nil => rw [List.append_nil, List.nil_append]
  | cons c run ih =>
      obtain ⟨first, others⟩ := List.forall_mem_cons.mp numeral
      rw [List.cons_append, after, if_pos first, ih others, List.append_assoc]
      rfl

theorem after_end (run : Text) {rest : Text} (apart : ∀ c ∈ rest.head?, ¬ Decimal.isNumeralChar c) :
    after base run rest = number run ++ spans base rest := by
  cases rest with
  | nil => exact (List.append_nil _).symm
  | cons c rest =>
      have outside : ¬ Decimal.isNumeralChar c := apart c rfl
      rw [spans, after, if_neg outside, after, if_neg outside]
      rfl

theorem spans_run {run rest : Text} (nonempty : run ≠ [])
    (numeral : ∀ c ∈ run, Decimal.isNumeralChar c)
    (apart : ∀ c ∈ rest.head?, ¬ Decimal.isNumeralChar c) :
    spans base (run ++ rest) = ⟨run, numberStyle⟩ :: spans base rest := by
  rw [spans, after_run base numeral, List.nil_append, after_end base run apart, number,
    if_neg (by simpa using nonempty)]
  rfl

theorem spans_single {c : Char} (outside : ¬ Decimal.isNumeralChar c) (rest : Text) :
    spans base (c :: rest) = single base c :: spans base rest := by
  rw [spans, after, if_neg outside]
  rfl

theorem single_symbol (op : Operator) : single base op.symbol = ⟨[op.symbol], operatorStyle⟩ :=
  if_pos (Operator.isSymbol_iff.mpr ⟨op, rfl⟩)

theorem spans_symbol (op : Operator) (rest : Text) :
    spans base (op.symbol :: rest) = ⟨[op.symbol], operatorStyle⟩ :: spans base rest := by
  rw [spans_single base (Decimal.symbol_not_numeral op), single_symbol]

theorem spans_tokens {text : Text} {tokens : List Token} (reads : Token.Reads text tokens)
    (known : ∀ c ∈ text, Known c) : spans base text = tokens.map (Token.span base) := by
  induction reads with
  | done => rfl
  | numeral maximal tail ih =>
      obtain ⟨_, later⟩ := List.forall_mem_append.mp known
      rw [spans_run base maximal.nonempty maximal.numeral maximal.ends, ih later]
      rfl
  | operator op tail ih =>
      obtain ⟨_, later⟩ := List.forall_mem_cons.mp known
      rw [spans_symbol, ih later]
      rfl
  | unexpected rest unknown => exact absurd (known _ List.mem_cons_self) unknown

def gap : Span := ⟨[' '], {}⟩

theorem spans_token {token : Token} (plain : token.Plain) {rest : Text}
    (apart : ∀ c ∈ rest.head?, ¬ Decimal.isNumeralChar c) :
    spans base (token.text ++ rest) = token.span base :: spans base rest := by
  cases plain with
  | numeral nonempty inside => exact spans_run base nonempty inside apart
  | operator op => exact spans_symbol base op rest

theorem spans_intercalate {tokens : List Token} (plain : ∀ token ∈ tokens, token.Plain) :
    spans base ([' '].intercalate (tokens.map Token.text)) =
      (tokens.map (Token.span base)).intersperse gap := by
  induction tokens with
  | nil => rfl
  | cons token tokens ih =>
      obtain ⟨first, others⟩ := List.forall_mem_cons.mp plain
      have later := ih others
      cases tokens with
      | nil =>
          have alone : spans base (token.text ++ []) = token.span base :: spans base [] :=
            spans_token base first (by simp)
          rw [List.append_nil] at alone
          rw [List.map_singleton, List.intercalate_singleton]
          exact alone
      | cons next tokens =>
          have space : ¬ Decimal.isNumeralChar ' ' := by decide
          rw [List.map_cons, List.map_cons] at later ⊢
          rw [List.intercalate_cons_cons, List.append_assoc, List.singleton_append,
            spans_token base first (by simpa using space), spans_single base space, later]
          rfl

def IsNumber (span : Span) : Prop := ∀ c ∈ span.content, Decimal.isNumeralChar c

theorem single_not_number {c : Char} (outside : ¬ Decimal.isNumeralChar c) :
    ¬ IsNumber (single base c) := by
  intro inside
  rw [IsNumber, single_content] at inside
  exact outside (inside c (List.mem_singleton_self c))

/-- The span is a whole run in the style of numbers, or one character that belongs to none. -/
inductive Kind : Span → Prop
  | run {run : Text} (nonempty : run ≠ []) (inside : ∀ c ∈ run, Decimal.isNumeralChar c) :
      Kind ⟨run, numberStyle⟩
  | single {c : Char} (outside : ¬ Decimal.isNumeralChar c) : Kind (single base c)

theorem number_kind {run : Text} (numeral : ∀ c ∈ run, Decimal.isNumeralChar c) :
    ∀ span ∈ number run, Kind base span := by
  cases run with
  | nil => exact List.forall_mem_nil _
  | cons c run => exact List.forall_mem_singleton.mpr (.run (List.cons_ne_nil _ _) numeral)

theorem spans_kind (text : Text) : ∀ span ∈ spans base text, Kind base span := by
  suffices general : ∀ run : Text, (∀ c ∈ run, Decimal.isNumeralChar c) →
      ∀ span ∈ after base run text, Kind base span by
    exact general [] (by simp)
  induction text with
  | nil => exact fun run numeral => number_kind base numeral
  | cons c rest ih =>
      intro run numeral
      rw [after]
      split_ifs with inside
      · exact ih _ (List.forall_mem_append.mpr ⟨numeral, List.forall_mem_singleton.mpr inside⟩)
      · exact List.forall_mem_append.mpr ⟨number_kind base numeral,
          List.forall_mem_cons.mpr ⟨.single inside, ih [] (by simp)⟩⟩

theorem spans_apart (text : Text) :
    (spans base text).IsChain fun span next => ¬ (IsNumber span ∧ IsNumber next) := by
  suffices general : ∀ run : Text,
      (after base run text).IsChain fun span next => ¬ (IsNumber span ∧ IsNumber next) by
    exact general []
  induction text with
  | nil =>
      intro run
      rw [after, number]
      split_ifs <;> simp
  | cons c rest ih =>
      intro run
      rw [after]
      split_ifs with inside
      · exact ih _
      · have outside := single_not_number base inside
        have later : (single base c :: after base [] rest).IsChain
            fun span next => ¬ (IsNumber span ∧ IsNumber next) :=
          List.isChain_cons.mpr ⟨fun next _ both => outside both.1, ih []⟩
        cases run with
        | nil => exact later
        | cons d run => exact List.isChain_cons.mpr ⟨by simpa using fun _ => outside, later⟩

theorem number_style {text : Text} {span : Span} (member : span ∈ spans base text) :
    (IsNumber span → span.style = numberStyle) ∧
      (base ≠ numberStyle → span.style = numberStyle → IsNumber span) := by
  cases spans_kind base text span member with
  | run nonempty inside => exact ⟨fun _ => rfl, fun _ _ => inside⟩
  | single outside =>
      refine ⟨fun number => absurd number (single_not_number base outside), fun other style => ?_⟩
      have symbols : operatorStyle ≠ numberStyle := by decide
      have spaces : ({} : Style) ≠ numberStyle := by decide
      unfold single at style
      split_ifs at style
      · exact absurd style symbols
      · exact absurd style spaces
      · exact absurd style other

/-- An expression of digits, points and operators is spaced between its tokens and coloured token by
token; spaced out, it is coloured alike but for the spaces. The spans of any text are the text, none is
empty, and no two numbers stand next to each other. -/
theorem spans_scan (base : Style) :
    (∀ text : Text, (∀ c ∈ text, Known c) →
      let tokens := Token.scan text
      (∀ token ∈ tokens, token.Plain) ∧
      spaced text = [' '].intercalate (tokens.map Token.text) ∧
      spans base text = tokens.map (Token.span base) ∧
      spans base (spaced text) = (tokens.map (Token.span base)).intersperse gap) ∧
    ∀ text : Text,
      (spans base text).flatMap Span.content = text ∧
      (∀ span ∈ spans base text, span.content ≠ []) ∧
      ((spans base text).IsChain fun span next => ¬ (IsNumber span ∧ IsNumber next)) ∧
      ∀ span ∈ spans base text, (IsNumber span → span.style = numberStyle) ∧
        (base ≠ numberStyle → span.style = numberStyle → IsNumber span) := by
  constructor
  · intro text known tokens
    have reads := Token.reads_scan text
    have plain := reads.plain known
    refine ⟨plain, spaced_tokens known, spans_tokens base reads known, ?_⟩
    rw [spaced_tokens known]
    exact spans_intercalate base plain
  · intro text
    refine ⟨spans_content base text, ?_, spans_apart base text, fun span => number_style base⟩
    intro span member
    cases spans_kind base text span member with
    | run nonempty inside => exact nonempty
    | single outside =>
        rw [single_content]
        exact List.cons_ne_nil _ []

theorem spans_scan_malformed :
    let text : Text := "1..2+*.".toList
    let texts : List Text := ["1..2".toList, "+".toList, "*".toList, ".".toList]
    (∀ c ∈ text, Known c) ∧ (Token.scan text).map Token.text = texts ∧
      spaced text = "1..2 + * .".toList ∧
      spans {} text = [⟨"1..2".toList, numberStyle⟩, ⟨"+".toList, operatorStyle⟩,
        ⟨"*".toList, operatorStyle⟩, ⟨".".toList, numberStyle⟩] ∧
      (spans {} (spaced text)).map Span.content = texts.intersperse " ".toList := by
  intro text texts
  have known : ∀ c ∈ text, Known c := known_of_all (by decide)
  obtain ⟨_, words, plain, loose⟩ := (spans_scan {}).1 text known
  refine ⟨known, by decide, words.trans (by decide), plain.trans (by decide), ?_⟩
  rw [loose]
  decide

end Highlight

end Calculator
