import Calculator.Proofs.Acceptance
import Calculator.Proofs.BufferShape

namespace Calculator

/-- A maximal run without a digit, or with more than one point. -/
def HasBadRun (text : Text) : Prop :=
  ∃ front run back, text = front ++ run ++ back ∧ MaximalRun front run back ∧
    ((∀ c ∈ run, ¬ c.isDigit) ∨ 1 < run.count '.')

theorem MaximalRun.literal_iff {front run back : Text} (maximal : MaximalRun front run back) :
    IsLiteral run ↔ ¬ ((∀ c ∈ run, ¬ c.isDigit) ∨ 1 < run.count '.') := by
  constructor
  · intro literal bad
    rcases literal.digit with ⟨c, member, digit⟩
    have point := literal.point
    rcases bad with none | many
    · exact none c member digit
    · omega
  · intro good
    rcases not_or.mp good with ⟨some, few⟩
    refine ⟨maximal.numeral, ?_, Nat.le_of_not_lt few⟩
    by_contra none
    exact some fun c member digit => none ⟨c, member, digit⟩

namespace Chain

theorem numeral_start (chain : Chain) : ∀ c ∈ chain.text.head?, Decimal.isNumeralChar c := by
  intro c first
  rcases List.exists_cons_of_ne_nil chain.first.literal.nonempty with ⟨d, more, run⟩
  have same : c = d := by simpa [text, run, eq_comm] using first
  exact chain.first.literal.numeral c (by simp [run, same])

theorem numeral_end (chain : Chain) : ∀ c ∈ chain.text.getLast?, Decimal.isNumeralChar c := by
  have ending : ∃ front, ∃ l : Literal, chain.text = front ++ l.run := by
    rcases List.eq_nil_or_concat chain.rest with none | ⟨links, link, some⟩
    · exact ⟨[], chain.first, by simp [text, none]⟩
    · exact ⟨chain.first.run ++ links.flatMap Link.text ++ [link.op.symbol], link.l,
        by simp [text, some, Link.text]⟩
  rcases ending with ⟨front, l, split⟩
  intro c last
  rw [split, List.getLast?_append_of_ne_nil _ l.literal.nonempty] at last
  exact l.literal.numeral c (List.mem_of_getLast? last)

end Chain

theorem Token.Reads.alternating {text : Text} {tokens : List Token} (reads : Reads text tokens)
    (clean : ∀ token ∈ tokens, token.fault? = none) (apart : text.IsChain Apart)
    (last : ∀ c ∈ text.getLast?, ¬ Operator.isSymbol c) :
    (text ≠ [] → (∀ c ∈ text.head?, ¬ Operator.isSymbol c) → ∃ chain : Chain, text = chain.text) ∧
      ((∀ c ∈ text.head?, ¬ Decimal.isNumeralChar c) →
        ∃ links : List Link, text = links.flatMap Link.text) := by
  induction reads with
  | done => exact ⟨fun nonempty => absurd rfl nonempty, fun _ => ⟨[], rfl⟩⟩
  | @numeral run rest tokens found tail ih =>
      obtain ⟨_, after⟩ := ih (fun token member => clean token (List.mem_cons_of_mem _ member))
        apart.right_of_append
        fun c final => last c (List.mem_getLast?_append_of_mem_getLast? final)
      have literal := (clean_numeral_iff found.numeral).mp (clean _ (by simp))
      constructor
      · intro _ _
        rcases after found.ends with ⟨links, rfl⟩
        exact ⟨⟨⟨run, literal⟩, links⟩, rfl⟩
      · intro outside
        rcases List.exists_cons_of_ne_nil found.nonempty with ⟨c, more, rfl⟩
        exact absurd (found.numeral c (by simp)) (outside c (by simp))
  | @operator rest tokens op tail ih =>
      have symbol : Operator.isSymbol op.symbol := Operator.isSymbol_iff.mpr ⟨op, rfl⟩
      constructor
      · intro _ first
        exact absurd symbol (first op.symbol rfl)
      · intro _
        have nonempty : rest ≠ [] := by
          intro empty
          rw [empty] at last
          exact last op.symbol rfl symbol
        -- no operator follows, so what does is a chain, and not an empty one
        rcases List.isChain_cons.mp apart with ⟨seam, inner⟩
        obtain ⟨before, _⟩ := ih (fun token member => clean token (List.mem_cons_of_mem _ member))
          inner fun c final => last c (List.mem_getLast?_cons final)
        rcases before nonempty fun c first plain => seam c first ⟨symbol, plain⟩ with ⟨chain, rfl⟩
        exact ⟨⟨op, chain.first⟩ :: chain.rest, rfl⟩
  | @unexpected c rest unknown =>
      have fault := clean (.unexpected c) (by simp)
      cases fault

section

variable {α : Type} [Arithmetic α]

theorem runs_of_ok {text : Text} {value : α}
    (ok : (evaluate text : Evaluation α).outcome = .ok value) {front run back : Text}
    (split : text = front ++ run ++ back) (maximal : MaximalRun front run back) :
    IsLiteral run := by
  by_contra bad
  rcases outcome_ok.mp ok with ⟨steps, ran⟩
  rcases Machine.run_ok ran with ⟨clean, _⟩
  rcases chain_of_ok ok with ⟨chain, same⟩
  have known : ∀ c ∈ front, Known c := fun c member =>
    chain.known_text c (by rw [← same, split]; simp [member])
  rcases (Fault.number maximal bad).scan known with ⟨token, more, scanned, fault⟩
  rw [← split] at scanned
  have none := clean token (by rw [scanned]; simp)
  rw [none] at fault
  cases fault

namespace Buffer.WellShaped

variable {buffer : Buffer}

theorem lexical (shaped : WellShaped buffer) (good : ¬ HasBadRun buffer) : Lexical buffer := by
  refine ⟨shaped.known, fun front run back split maximal => ?_⟩
  rw [maximal.literal_iff]
  intro bad
  exact good ⟨front, run, back, split, maximal, bad⟩

theorem ok_iff (shaped : WellShaped buffer) :
    (∃ value : α, (evaluate buffer : Evaluation α).outcome = .ok value) ↔
      buffer ≠ [] ∧ buffer.head? ≠ some '-' ∧
        (∀ op : Operator, buffer.getLast? ≠ some op.symbol) ∧ ¬ HasBadRun buffer := by
  constructor
  · intro accepted
    rcases accepted with ⟨value, ok⟩
    rcases chain_of_ok ok with ⟨chain, same⟩
    refine ⟨?_, ?_, ?_, ?_⟩
    · rw [same]
      exact List.append_ne_nil_of_left_ne_nil chain.first.literal.nonempty _
    · intro minus
      rw [same] at minus
      exact absurd (chain.numeral_start '-' minus) (by decide)
    · intro op final
      rw [same] at final
      exact Decimal.symbol_not_numeral op (chain.numeral_end op.symbol final)
    · intro misread
      rcases misread with ⟨front, run, back, split, maximal, bad⟩
      exact maximal.literal_iff.mp (runs_of_ok ok split maximal) bad
  · intro fit
    rcases fit with ⟨nonempty, minus, final, good⟩
    have clean := Token.clean_of_lexical (shaped.lexical good)
    have first : ∀ c ∈ buffer.head?, ¬ Operator.isSymbol c := by
      intro c first symbol
      rw [shaped.start c first symbol] at first
      exact minus first
    have last : ∀ c ∈ buffer.getLast?, ¬ Operator.isSymbol c := by
      intro c last symbol
      rcases Operator.isSymbol_iff.mp symbol with ⟨op, rfl⟩
      exact final op last
    rcases (Token.reads_scan buffer).alternating clean shaped.apart last with ⟨alternates, _⟩
    exact ok_iff_chain.mpr (alternates nonempty first)

theorem outcome_ne_unexpected (shaped : WellShaped buffer) (c : Char) :
    (evaluate buffer : Evaluation α).outcome ≠ .error (.unexpectedCharacter c) := by
  intro failed
  rcases error_cases failed with ⟨token, member, fault⟩ | ⟨op, missing⟩ | ⟨empty, _⟩
  · have same : token = .unexpected c := by
      cases token with
      | numeral run =>
          unfold Token.fault? at fault
          cases found : Decimal.ofRun? run <;> simp [found] at fault
      | operator op => cases fault
      | unexpected d =>
          cases fault
          rfl
    rw [same] at member
    rcases (Token.reads_scan buffer).unexpected_mem member with ⟨present, unknown⟩
    exact unknown (shaped.known c present)
  · cases missing
  · cases empty

end Buffer.WellShaped

end

namespace Session

theorem recorded_none_iff (s : Session) :
    s.recorded? = none ↔
      (¬ ∃ value : Float, (evaluate s.buffer : Evaluation Float).outcome = .ok value) ∨
        ∃ value : Float, (evaluate s.buffer : Evaluation Float).outcome = .ok value ∧
          ¬ value.isFinite := by
  unfold recorded?
  cases outcome : (evaluate s.buffer : Evaluation Float).outcome with
  | error error => simp
  | ok value => simp

/-- After any keys of a front-end: the shape of the buffer, and the buffers on which equals fails. -/
theorem after_typed_laws (keys : List Key) (typed : ∀ key ∈ keys, key.Typed) :
    (∀ c ∈ (after keys).buffer, Decimal.isNumeralChar c ∨ Operator.isSymbol c) ∧
      (∀ front c d back, (after keys).buffer = front ++ c :: d :: back →
        ¬ (Operator.isSymbol c ∧ Operator.isSymbol d)) ∧
      (∀ c, (after keys).buffer.head? = some c → Operator.isSymbol c → c = '-') ∧
      ((after (keys ++ [.equals])).display = .error ↔
        (after keys).buffer = [] ∨ (after keys).buffer.head? = some '-' ∨
          (∃ op : Operator, (after keys).buffer.getLast? = some op.symbol) ∨
          HasBadRun (after keys).buffer ∨
          ∃ value : Float, (evaluate (after keys).buffer : Evaluation Float).outcome = .ok value ∧
            ¬ value.isFinite) ∧
      (∀ c, (evaluate (after keys).buffer : Evaluation Float).outcome ≠
        .error (.unexpectedCharacter c)) ∧
      ∀ n, (evaluate (after keys).buffer : Evaluation Float).outcome ≠ .error (.unbalanced n) := by
  have shaped := after_shaped keys typed
  refine ⟨shaped.known, ?_, shaped.start, ?_, shaped.outcome_ne_unexpected,
    outcome_ne_unbalanced _⟩
  · intro front c d back split
    exact List.isChain_iff_forall_rel_of_append_cons_cons.mp shaped.apart split
  · rw [after_append]
    change (after keys).equals.display = .error ↔ _
    rw [equals_error_iff, recorded_none_iff, shaped.ok_iff]
    by_cases infinite : ∃ value : Float,
        (evaluate (after keys).buffer : Evaluation Float).outcome = .ok value ∧ ¬ value.isFinite
    · simp only [infinite, or_true]
    · simp only [infinite, or_false, not_and_or, not_not, not_forall, ne_eq]

theorem after_negative_result :
    (∀ key ∈ [Key.digit '3', .operator .sub, .digit '8', .equals], key.Typed) ∧
      (after [.digit '3', .operator .sub, .digit '8', .equals]).buffer = ['-', '5'] ∧
      (after [.digit '3', .operator .sub, .digit '8', .equals, .equals]).display = .error := by
  have typed : ∀ key ∈ [Key.digit '3', .operator .sub, .digit '8', .equals], key.Typed := by decide
  have shown : (after [.digit '3', .operator .sub, .digit '8', .equals]).buffer = ['-', '5'] := by
    decide +kernel
  rcases after_typed_laws _ typed with ⟨_, _, _, fails, _⟩
  exact ⟨typed, shown, fails.mpr (Or.inr (Or.inl (by rw [shown]; rfl)))⟩

end Session

end Calculator
