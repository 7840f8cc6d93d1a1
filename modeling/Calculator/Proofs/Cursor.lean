import Mathlib.Data.String.Basic
import Calculator.FloatArithmetic
import Calculator.Proofs.Acceptance

/-! A text read token by token, by a cursor that counts octets.

The cursor sees what lies ahead of it, hands out the token this begins with and moves behind it; a
character that is no part of an expression sends it to the end of the text. It knows its place by a
count of octets only, so a wrong count could leave it inside a character, where nothing can be read.
That never happens: the cursor hands out the tokens of the scan and then nothing, and these lie end to
end in the text, each as long as it can be. -/

namespace Calculator

open String (utf8Len)

/-- The text that follows so many octets; `none` where they do not end with a character of it. -/
def Text.ahead? : Text → Nat → Option Text
  | [], octets => if octets = 0 then some [] else none
  | c :: rest, octets =>
    if octets = 0 then some (c :: rest)
    else if c.utf8Size ≤ octets then ahead? rest (octets - c.utf8Size)
    else none

theorem Text.ahead?_utf8Len (front rest : Text) :
    Text.ahead? (front ++ rest) (utf8Len front) = some rest := by
  induction front with
  | nil => cases rest <;> rfl
  | cons c front ih =>
      have positive := c.utf8Size_pos
      have counted : utf8Len front + c.utf8Size ≠ 0 := by omega
      rw [List.cons_append, ahead?, String.utf8Len_cons, if_neg counted,
        if_pos (Nat.le_add_left _ _), Nat.add_sub_cancel, ih]

inductive Item (α : Type) where
  | number (value : α)
  | operator (op : Operator)

section

variable {α : Type} [Arithmetic α]

def Token.item : Token → Except EvalError (Item α)
  | .numeral run =>
    match Decimal.ofRun? run with
    | some d => .ok (.number (Arithmetic.ofDecimal d))
    | none => .error (.invalidNumber run)
  | .operator op => .ok (.operator op)
  | .unexpected c => .error (.unexpectedCharacter c)

def Machine.receive (m : Machine α) : Except EvalError (Item α) → Except (Failure α) (Machine α)
  | .ok (.number value) => .ok { m with operands := value :: m.operands }
  | .ok (.operator op) => do
    let m ← m.settle op.precedence m.operators
    return { m with operators := op :: m.operators }
  | .error error => .error ⟨error, m.steps⟩

theorem Machine.feed_eq_receive (m : Machine α) (token : Token) :
    m.feed token = m.receive token.item := by
  cases token with
  | numeral run => cases found : Decimal.ofRun? run <;> simp only [feed, Token.item, found, receive]
  | operator op => rfl
  | unexpected c => rfl

theorem Token.item_literal (l : Literal) :
    (numeral l.run).item = .ok (.number (Arithmetic.ofDecimal l.decimal : α)) := by
  simp only [item, l.ofRun?_run]

theorem Token.item_invalid {run : Text} (inside : ∀ c ∈ run, Decimal.isNumeralChar c)
    (bad : ¬ IsLiteral run) : (numeral run).item (α := α) = .error (.invalidNumber run) := by
  have unread : Decimal.ofRun? run = none := by
    rw [← Option.not_isSome_iff_eq_none, Decimal.ofRun?_isSome_iff run inside]
    exact bad
  simp only [item, unread]

end

def Token.first? : Text → Option Token
  | [] => none
  | c :: rest =>
    if Decimal.isNumeralChar c then some (numeral ((c :: rest).takeWhile Decimal.isNumeralChar))
    else some ((Operator.ofChar? c).elim (unexpected c) operator)

theorem Token.Cut.first? {front back : Text} {token : Token} {after : List Token}
    (cut : Cut front token back after) : Token.first? (token.text ++ back) = some token := by
  cases cut with
  | @numeral run back maximal =>
      have taken : (run ++ back).takeWhile Decimal.isNumeralChar = run := by
        rw [List.takeWhile_append_of_pos maximal.numeral]
        cases back with
        | nil => simp
        | cons d back => simp [maximal.ends d rfl]
      rcases List.exists_cons_of_ne_nil maximal.nonempty with ⟨c, more, rfl⟩
      have inside : Decimal.isNumeralChar c := maximal.numeral c List.mem_cons_self
      rw [text, List.cons_append, Token.first?, if_pos inside, ← List.cons_append, taken]
  | operator op back =>
      change Token.first? (op.symbol :: back) = _
      rw [Token.first?, if_neg (Decimal.symbol_not_numeral op), Operator.ofChar?_symbol]
      rfl
  | @unexpected c back unknown =>
      rcases not_or.mp (known_iff.not.mp unknown) with ⟨outside, none⟩
      change Token.first? (c :: back) = _
      rw [Token.first?, if_neg outside, not_not.mp none]
      rfl

theorem Token.texts_of_unexpected {text front back : Text} {c : Char}
    (split : text = front ++ c :: back) (known : ∀ d ∈ front, Known d) (unknown : ¬ Known c) :
    (scan text).flatMap Token.text = front ++ [c] ∧
      (scan text).getLast? = some (.unexpected c) := by
  rw [split, scan_append_unexpected front back known unknown]
  constructor
  · rw [List.flatMap_append, (reads_scan front).texts known, List.flatMap_singleton]
    rfl
  · rw [List.getLast?_concat]

/-- A place in a text, known by the octets before it. -/
structure Cursor where
  text : Text
  octets : Nat

namespace Cursor

/-- Moves behind a token; behind an unexpected character nothing is worth reading. -/
def past (cursor : Cursor) : Token → Cursor
  | .unexpected _ => { cursor with octets := utf8Len cursor.text }
  | token => { cursor with octets := cursor.octets + utf8Len token.text }

/-- Hands out a token and moves on; at the end there is none. Inside a character this fails. -/
def next (cursor : Cursor) : Option (Option Token × Cursor) := do
  let ahead ← cursor.text.ahead? cursor.octets
  match Token.first? ahead with
  | some token => return (some token, cursor.past token)
  | none => return (none, cursor)

def after (text : Text) : Nat → Option Cursor
  | 0 => some ⟨text, 0⟩
  | calls + 1 => do
    let (_, cursor) ← (← after text calls).next
    return cursor

def behind (text : Text) (calls : Nat) : Cursor :=
  let tokens := Token.scan text
  ⟨text, if calls < tokens.length then utf8Len ((tokens.take calls).flatMap Token.text)
    else utf8Len text⟩

theorem next_end (text : Text) :
    (Cursor.mk text (utf8Len text)).next = some (none, ⟨text, utf8Len text⟩) := by
  have ahead := Text.ahead?_utf8Len text []
  rw [List.append_nil] at ahead
  simp only [next, ahead]
  rfl

theorem next_cut {front back : Text} {token : Token} {after : List Token}
    (cut : Token.Cut front token back after) :
    let cursor : Cursor := ⟨front ++ token.text ++ back, utf8Len front⟩
    cursor.next = some (some token, cursor.past token) := by
  have ahead := Text.ahead?_utf8Len front (token.text ++ back)
  rw [← List.append_assoc] at ahead
  simp only [next, ahead, Option.bind_eq_bind, Option.bind_some, cut.first?]
  rfl

theorem behind_end {text : Text} {calls : Nat} (ended : (Token.scan text).length ≤ calls) :
    behind text calls = ⟨text, utf8Len text⟩ := by
  rw [behind, if_neg (Nat.not_lt.mpr ended)]

section

variable {text : Text} {before after : List Token} {token : Token}

theorem behind_before (split : Token.scan text = before ++ token :: after) :
    behind text before.length = ⟨text, utf8Len (before.flatMap Token.text)⟩ := by
  simp [behind, split]

theorem behind_last (split : Token.scan text = before ++ [token]) :
    behind text (before.length + 1) = ⟨text, utf8Len text⟩ :=
  behind_end (by simp [split])

theorem behind_more {back : Text}
    (split : Token.scan text = before ++ token :: Token.scan back)
    (whole : text = before.flatMap Token.text ++ token.text ++ back) :
    behind text (before.length + 1) =
      ⟨text, utf8Len (before.flatMap Token.text) + utf8Len token.text⟩ := by
  cases back with
  | nil => rw [behind_last split, ← String.utf8Len_append, ← List.append_nil (_ ++ _), ← whole]
  | cons c back =>
      have more := List.length_pos_of_ne_nil (Token.scan_ne_nil (c :: back) (List.cons_ne_nil _ _))
      have within : before.length + 1 < (Token.scan text).length := by
        rw [split, List.length_append, List.length_cons]
        omega
      have taken : (Token.scan text).take (before.length + 1) = before ++ [token] := by
        rw [split, List.append_cons]
        exact List.take_left' (by simp)
      simp only [behind, if_pos within, taken, List.flatMap_append, List.flatMap_singleton,
        String.utf8Len_append]

theorem behind_past (split : Token.scan text = before ++ token :: after) {back : Text}
    (whole : text = before.flatMap Token.text ++ token.text ++ back)
    (cut : Token.Cut (before.flatMap Token.text) token back after) :
    behind text (before.length + 1) = (behind text before.length).past token := by
  rw [behind_before split]
  cases cut with
  | numeral maximal => exact behind_more split whole
  | operator op back => exact behind_more split whole
  | unexpected back unknown => exact behind_last split

end

theorem place {text : Text} {calls : Nat} (within : calls < (Token.scan text).length) :
    ∃ before token after back, Token.scan text = before ++ token :: after ∧
      before.length = calls ∧ text = before.flatMap Token.text ++ token.text ++ back ∧
      Token.Cut (before.flatMap Token.text) token back after := by
  have split : Token.scan text = (Token.scan text).take calls ++
      (Token.scan text)[calls] :: (Token.scan text).drop (calls + 1) := by
    rw [← List.drop_eq_getElem_cons within, List.take_append_drop]
  obtain ⟨back, whole, cut⟩ := (Token.reads_scan text).cut split
  exact ⟨_, _, _, back, split, List.length_take_of_le (Nat.le_of_lt within), whole, cut⟩

theorem next_behind (text : Text) (calls : Nat) :
    (behind text calls).next = some ((Token.scan text)[calls]?, behind text (calls + 1)) := by
  rcases Nat.lt_or_ge calls (Token.scan text).length with within | ended
  · obtain ⟨before, token, after, back, split, rfl, whole, cut⟩ := place within
    have found : (Token.scan text)[before.length]? = some token := by
      rw [split, List.getElem?_append_right (Nat.le_refl _), Nat.sub_self]
      rfl
    have step := next_cut cut
    rw [← whole, ← behind_before split] at step
    rw [step, found, behind_past split whole cut]
  · rw [behind_end ended, behind_end (Nat.le_succ_of_le ended), next_end,
      List.getElem?_eq_none ended]

theorem after_eq (text : Text) (calls : Nat) : after text calls = some (behind text calls) := by
  induction calls with
  | zero =>
      have start : behind text 0 = ⟨text, 0⟩ := by
        cases text with
        | nil => rfl
        | cons c rest =>
            have within := List.length_pos_of_ne_nil
              (Token.scan_ne_nil (c :: rest) (List.cons_ne_nil _ _))
            rw [behind, if_pos within]
            rfl
      rw [after, start]
  | succ calls ih =>
      rw [after, ih, Option.bind_eq_bind, Option.bind_some, next_behind]
      rfl

theorem behind_valid (text : Text) (calls : Nat) :
    (String.Pos.Raw.mk (behind text calls).octets).IsValid (String.ofList text) := by
  have boundary : ∃ front back, text = front ++ back ∧ (behind text calls).octets = utf8Len front := by
    rcases Nat.lt_or_ge calls (Token.scan text).length with within | ended
    · obtain ⟨before, token, after, back, split, rfl, whole, cut⟩ := place within
      rw [List.append_assoc] at whole
      exact ⟨_, _, whole, by rw [behind_before split]⟩
    · exact ⟨text, [], (List.append_nil text).symm, by rw [behind_end ended]⟩
  obtain ⟨front, back, whole, octets⟩ := boundary
  rw [String.Pos.Raw.isValid_iff_exists_append]
  refine ⟨String.ofList front, String.ofList back, ?_, ?_⟩
  · rw [whole, String.ofList_append]
  · rw [String.rawEndPos_ofList, octets]

/-- From the start of any text every call finds the cursor between two characters, and hands out the
next token of the scan as long as there is one. The tokens lie end to end: they make up the text, or
its part through the first character that is no part of an expression. Each is an operator, a run that
no digit or point touches, or that character, and no two runs are neighbours. A run stands for its
number if it is a literal and else for an error that names it, and this is all that an evaluation
knows of a token. -/
theorem scan_laws (α : Type) [Arithmetic α] (text : Text) :
    let tokens := Token.scan text
    (∀ calls, ∃ cursor following, after text calls = some cursor ∧ cursor.text = text ∧
      cursor.next = some (tokens[calls]?, following) ∧
      (String.Pos.Raw.mk cursor.octets).IsValid (String.ofList text) ∧
      (calls < tokens.length →
        cursor.octets = utf8Len ((tokens.take calls).flatMap Token.text))) ∧
    ((∀ c ∈ text, Known c) → tokens.flatMap Token.text = text) ∧
    (∀ front c back, text = front ++ c :: back → (∀ d ∈ front, Known d) → ¬ Known c →
      tokens.flatMap Token.text = front ++ [c] ∧ tokens.getLast? = some (.unexpected c)) ∧
    (∀ before token after, tokens = before ++ token :: after →
      ∃ back, text = before.flatMap Token.text ++ token.text ++ back ∧
        Token.Cut (before.flatMap Token.text) token back after) ∧
    (tokens.IsChain fun token next => ¬ (token.isNumeral ∧ next.isNumeral)) ∧
    (∀ run, Token.numeral run ∈ tokens →
      (∀ literal : IsLiteral run, (Token.numeral run).item =
        .ok (.number (Arithmetic.ofDecimal (Literal.mk run literal).decimal : α))) ∧
      (¬ IsLiteral run → (Token.numeral run).item (α := α) = .error (.invalidNumber run))) ∧
    ∀ (m : Machine α) (token : Token), m.feed token = m.receive token.item := by
  intro tokens
  have reads := Token.reads_scan text
  refine ⟨fun calls => ?_, reads.texts, fun front c back => Token.texts_of_unexpected,
    fun before token after => reads.cut, reads.apart, fun run member => ?_,
    Machine.feed_eq_receive⟩
  · refine ⟨_, _, after_eq text calls, rfl, next_behind text calls, behind_valid text calls, ?_⟩
    intro within
    rw [behind, if_pos within]
  · obtain ⟨front, back, _, maximal⟩ := reads.maximal member
    exact ⟨fun literal => Token.item_literal ⟨run, literal⟩, Token.item_invalid maximal.numeral⟩

theorem scan_laws_accented :
    let text : Text := "1.2.3*7é+".toList
    let tokens : List Token :=
      [.numeral "1.2.3".toList, .operator .mul, .numeral "7".toList, .unexpected 'é']
    Token.scan text = tokens ∧ tokens.flatMap Token.text = "1.2.3*7é".toList ∧
      (Token.numeral "1.2.3".toList).item (α := Float) = .error (.invalidNumber "1.2.3".toList) ∧
      (∃ cursor following, after text 3 = some cursor ∧ cursor.octets = 7 ∧
        cursor.next = some (some (.unexpected 'é'), following)) ∧
      ∀ calls, 4 ≤ calls → ∃ cursor following, after text calls = some cursor ∧
        cursor.next = some (none, following) := by
  intro text tokens
  have scanned : Token.scan text = tokens := by decide
  obtain ⟨calls, _, unknown, _, _, items, _⟩ := scan_laws Float text
  rw [scanned] at calls unknown items
  refine ⟨scanned, ?_, ?_, ?_, fun n past => ?_⟩
  · have known : ∀ c ∈ "1.2.3*7".toList, Known c := known_of_all (by decide)
    have accented : ¬ Known 'é' := by
      unfold Known
      decide
    exact (unknown "1.2.3*7".toList 'é' "+".toList rfl known accented).1
  · exact (items "1.2.3".toList (by decide)).2 fun literal => absurd literal.point (by decide)
  · obtain ⟨cursor, following, reached, _, handed, _, place⟩ := calls 3
    exact ⟨cursor, following, reached, place (by decide), handed⟩
  · obtain ⟨cursor, following, reached, _, handed, _⟩ := calls n
    exact ⟨cursor, following, reached, handed.trans (by rw [List.getElem?_eq_none past])⟩

end Cursor

end Calculator
