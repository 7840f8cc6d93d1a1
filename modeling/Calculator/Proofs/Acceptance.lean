import Mathlib.Data.List.Chain
import Calculator.Proofs.Balance
import Calculator.Proofs.ChainValue

/-! Which texts have a value, and which error the others get.

Two numerals never follow each other in a reading, so there is at most one numeral more than there
are operators, and exactly one more only if both alternate from the first token to the last. Since an
evaluation that succeeds leaves one operand, it succeeds on chains alone. -/

namespace Calculator

namespace Token

theorem Reads.maximal {text run : Text} {tokens : List Token} (reads : Reads text tokens)
    (member : Token.numeral run ∈ tokens) :
    ∃ front back, text = front ++ run ++ back ∧ MaximalRun front run back := by
  obtain ⟨before, after, split⟩ := List.append_of_mem member
  obtain ⟨back, whole, cut⟩ := reads.cut split
  cases cut with
  | numeral maximal => exact ⟨_, back, whole, maximal⟩

theorem Reads.unexpected_mem {text : Text} {tokens : List Token} {c : Char}
    (reads : Reads text tokens) (member : Token.unexpected c ∈ tokens) : c ∈ text ∧ ¬ Known c := by
  induction reads with
  | done => cases member
  | numeral found tail ih =>
      rcases ih (by simpa using member) with ⟨present, unknown⟩
      exact ⟨List.mem_append_right _ present, unknown⟩
  | operator op tail ih =>
      rcases ih (by simpa using member) with ⟨present, unknown⟩
      exact ⟨List.mem_cons_of_mem _ present, unknown⟩
  | unexpected rest unknown =>
      simp only [List.mem_singleton, Token.unexpected.injEq] at member
      subst member
      exact ⟨by simp, unknown⟩

theorem clean_numeral_iff {run : Text} (inside : ∀ c ∈ run, Decimal.isNumeralChar c) :
    (numeral run).fault? = none ↔ IsLiteral run := by
  rw [← Decimal.ofRun?_isSome_iff run inside]
  cases found : Decimal.ofRun? run <;> simp [fault?, found]

theorem clean_of_lexical {text : Text} (lexical : Lexical text) :
    ∀ token ∈ scan text, token.fault? = none := by
  intro token member
  have reads := reads_scan text
  cases token with
  | numeral run =>
      rcases reads.maximal member with ⟨front, back, split, maximal⟩
      rw [clean_numeral_iff maximal.numeral]
      exact lexical.runs front run back split maximal
  | operator op => rfl
  | unexpected c =>
      rcases reads.unexpected_mem member with ⟨present, unknown⟩
      exact absurd (lexical.known c present) unknown

theorem Reads.apart {text : Text} {tokens : List Token} (reads : Reads text tokens) :
    tokens.IsChain fun token next => ¬ (token.isNumeral ∧ next.isNumeral) := by
  induction reads with
  | done => exact .nil
  | numeral found tail ih =>
      refine List.isChain_cons.mpr ⟨fun next first both => ?_, ih⟩
      cases tail with
      | numeral inner later =>
          rcases List.exists_cons_of_ne_nil inner.nonempty with ⟨c, more, rfl⟩
          exact found.ends c rfl (inner.numeral c List.mem_cons_self)
      | done => cases first
      | operator op later =>
          cases first
          cases both.2
      | unexpected rest unknown =>
          cases first
          cases both.2
  | operator op tail ih => exact List.isChain_cons.mpr ⟨fun next _ both => (nomatch both.1), ih⟩
  | unexpected rest unknown => exact .singleton _

theorem Reads.counts {text : Text} {tokens : List Token} (reads : Reads text tokens)
    (clean : ∀ token ∈ tokens, token.fault? = none) :
    (tokens.countP isNumeral ≤ tokens.countP isOperator + 1 ∧
      (tokens.countP isNumeral = tokens.countP isOperator + 1 →
        ∃ chain : Chain, text = chain.text)) ∧
    ((∀ c ∈ text.head?, ¬ Decimal.isNumeralChar c) →
      tokens.countP isNumeral ≤ tokens.countP isOperator ∧
        (tokens.countP isNumeral = tokens.countP isOperator →
          ∃ links : List Link, text = links.flatMap Link.text)) := by
  induction reads with
  | done => exact ⟨by simp, fun _ => ⟨by simp, fun _ => ⟨[], rfl⟩⟩⟩
  | @numeral run rest tokens found tail ih =>
      rcases ih fun token member => clean token (List.mem_cons_of_mem _ member) with ⟨_, after⟩
      rcases after found.ends with ⟨fewer, exact⟩
      have literal := (clean_numeral_iff found.numeral).mp (clean _ (by simp))
      simp only [List.countP_cons, isNumeral, isOperator, if_true, Bool.false_eq_true, if_false,
        Nat.add_zero]
      -- after a numeral no other run begins, so the second half holds of the rest
      refine ⟨⟨by omega, fun equal => ?_⟩, fun apart => ?_⟩
      · obtain ⟨links, rfl⟩ := exact (by omega)
        exact ⟨⟨⟨run, literal⟩, links⟩, rfl⟩
      · rcases List.exists_cons_of_ne_nil found.nonempty with ⟨c, more, rfl⟩
        exact absurd (found.numeral c (by simp)) (apart c (by simp))
  | @operator rest tokens op tail ih =>
      obtain ⟨⟨fewer, exact⟩, _⟩ :=
        ih fun token member => clean token (List.mem_cons_of_mem _ member)
      simp only [List.countP_cons, isNumeral, isOperator, if_true, Bool.false_eq_true, if_false,
        Nat.add_zero]
      refine ⟨⟨by omega, fun equal => by omega⟩, fun _ => ⟨by omega, fun equal => ?_⟩⟩
      obtain ⟨chain, rfl⟩ := exact (by omega)
      exact ⟨⟨op, chain.first⟩ :: chain.rest, rfl⟩
  | @unexpected c rest unknown =>
      have fault := clean (.unexpected c) (by simp)
      cases fault

end Token

/-- What a chain begins with: nothing, a chain, or a chain and one more operator. -/
inductive Opening : Text → Prop
  | empty : Opening []
  | literal (chain : Chain) : Opening chain.text
  | operator (chain : Chain) (op : Operator) : Opening (chain.text ++ [op.symbol])

/-- In `front ++ bad ++ back` the characters `bad` are a fault whatever stands around them. -/
inductive Fault (front : Text) : Text → Text → EvalError → Prop
  | number {run back : Text} (maximal : MaximalRun front run back) (bad : ¬ IsLiteral run) :
      Fault front run back (.invalidNumber run)
  | character {c : Char} (back : Text) (unknown : ¬ Known c) :
      Fault front [c] back (.unexpectedCharacter c)

theorem Opening.known {front : Text} (opening : Opening front) : ∀ c ∈ front, Known c := by
  cases opening with
  | empty => simp
  | literal chain => exact chain.known_text
  | operator chain op =>
      intro c member
      rcases List.mem_append.mp member with inside | last
      · exact chain.known_text c inside
      · rw [List.mem_singleton.mp last]
        exact known_symbol op

theorem Opening.feeds {α : Type} [Arithmetic α] {front : Text} (opening : Opening front) :
    ∃ m : Machine α, (Token.scan front).foldlM Machine.feed {} = .ok m := by
  cases opening with
  | empty => exact ⟨{}, rfl⟩
  | literal chain =>
      rw [chain.scan_text]
      exact ⟨_, Machine.feed_tokens chain⟩
  | operator chain op =>
      have cut : Token.scan (chain.text ++ [op.symbol]) = chain.tokens ++ [.operator op] := by
        rw [Token.scan_append _ _ chain.known_text
          (Or.inr (by simpa using Decimal.symbol_not_numeral op)), chain.scan_text,
          Token.scan_symbol]
        rfl
      rw [cut, List.foldlM_append, Machine.feed_tokens]
      change ∃ m, Machine.feed (Machine.holding _ _) _ >>= pure = .ok m
      rw [Machine.feed_operator]
      exact ⟨_, rfl⟩

theorem Fault.scan {front bad back : Text} {error : EvalError} (fault : Fault front bad back error)
    (known : ∀ c ∈ front, Known c) :
    ∃ token more, Token.scan (front ++ bad ++ back) = Token.scan front ++ token :: more ∧
      token.fault? = some error := by
  rw [List.append_assoc]
  cases fault with
  | number maximal wrong =>
      refine ⟨.numeral bad, Token.scan back, ?_, ?_⟩
      · rw [Token.scan_append front _ known (Or.inl maximal.starts),
          Token.scan_run_append bad back maximal.nonempty maximal.numeral maximal.ends]
      · have none := mt (Decimal.ofRun?_isSome_iff bad maximal.numeral).mp wrong
        simp [Token.fault?, none]
  | @character c _ unknown =>
      exact ⟨.unexpected c, [], Token.scan_append_unexpected front back known unknown, rfl⟩

section

variable {α : Type} [Arithmetic α]

theorem outcome_ok {text : Text} {value : α} :
    (evaluate text : Evaluation α).outcome = .ok value ↔
      ∃ steps, Machine.run (Token.scan text) = .ok (value, steps) := by
  unfold evaluate
  split
  case h_1 other steps ran => simp [ran]
  case h_2 failure ran => simp [ran]

theorem outcome_error {text : Text} {error : EvalError} :
    (evaluate text : Evaluation α).outcome = .error error ↔
      ∃ failure : Failure α, Machine.run (Token.scan text) = .error failure ∧
        failure.error = error := by
  unfold evaluate
  split
  case h_1 other steps ran => simp [ran]
  case h_2 failure ran => simp [ran]

theorem chain_of_ok {text : Text} {value : α}
    (ok : (evaluate text : Evaluation α).outcome = .ok value) :
    ∃ chain : Chain, text = chain.text := by
  rcases outcome_ok.mp ok with ⟨steps, ran⟩
  rcases Machine.run_ok ran with ⟨clean, counts⟩
  exact ((Token.reads_scan text).counts clean).1.2 counts

theorem ok_iff_chain {text : Text} :
    (∃ value : α, (evaluate text : Evaluation α).outcome = .ok value) ↔
      ∃ chain : Chain, text = chain.text := by
  constructor
  · intro accepted
    rcases accepted with ⟨value, ok⟩
    exact chain_of_ok ok
  · intro alternates
    rcases alternates with ⟨chain, rfl⟩
    rw [evaluate_text]
    exact ⟨_, rfl⟩

theorem error_cases {text : Text} {error : EvalError}
    (failed : (evaluate text : Evaluation α).outcome = .error error) :
    (∃ token ∈ Token.scan text, token.fault? = some error) ∨
      (∃ op, error = .missingOperand op) ∨ (error = .empty ∧ text = []) := by
  rcases outcome_error.mp failed with ⟨failure, ran, rfl⟩
  rcases Machine.run_error ran with fault | missing | ⟨empty, none⟩ | ⟨n, _, many, clean, count⟩
  · exact Or.inl fault
  · exact Or.inr (Or.inl missing)
  · have nil : text = [] := by
      by_contra nonempty
      exact Token.scan_ne_nil text nonempty none
    exact Or.inr (Or.inr ⟨empty, nil⟩)
  -- operands are never left over: numerals exceed operators by one at most
  · have fewer := ((Token.reads_scan text).counts clean).1.1
    omega

theorem outcome_of_fault {front bad back : Text} {error : EvalError} (opening : Opening front)
    (fault : Fault front bad back error) :
    (evaluate (front ++ bad ++ back) : Evaluation α).outcome = .error error := by
  rcases fault.scan opening.known with ⟨token, more, split, found⟩
  rcases opening.feeds (α := α) with ⟨m, fed⟩
  rw [outcome_error]
  refine ⟨⟨error, m.steps⟩, ?_, rfl⟩
  rw [Machine.run, split, List.foldlM_append, fed]
  change (List.foldlM Machine.feed m (token :: more)) >>= Machine.finish = _
  rw [List.foldlM_cons, Machine.feed_fault found]
  rfl

theorem missing_of_lexical {text : Text} (lexical : Lexical text) (nonempty : text ≠ [])
    (broken : ¬ ∃ chain : Chain, text = chain.text) :
    ∃ op, (evaluate text : Evaluation α).outcome = .error (.missingOperand op) := by
  cases outcome : (evaluate text : Evaluation α).outcome with
  | ok value => exact absurd (chain_of_ok outcome) broken
  | error error =>
      rcases error_cases outcome with ⟨token, member, fault⟩ | ⟨op, missing⟩ | ⟨_, empty⟩
      · rw [Token.clean_of_lexical lexical token member] at fault
        cases fault
      · exact ⟨op, by rw [missing]⟩
      · exact absurd empty nonempty

theorem outcome_nil : (evaluate [] : Evaluation α).outcome = .error .empty := rfl

theorem outcome_empty_iff {text : Text} :
    (evaluate text : Evaluation α).outcome = .error .empty ↔ text = [] := by
  constructor
  · intro failed
    rcases error_cases failed with ⟨token, _, fault⟩ | ⟨op, missing⟩ | ⟨_, empty⟩
    · exact absurd fault (by cases token <;> simp [Token.fault?])
    · cases missing
    · exact empty
  · intro empty
    rw [empty]
    exact outcome_nil

theorem outcome_ne_unbalanced (text : Text) (n : Nat) :
    (evaluate text : Evaluation α).outcome ≠ .error (.unbalanced n) := by
  intro failed
  rcases error_cases failed with ⟨token, _, fault⟩ | ⟨op, missing⟩ | ⟨empty, _⟩
  · exact absurd fault (by cases token <;> simp [Token.fault?])
  · cases missing
  · cases empty

/-- The texts with a value are the chains. Of the others the empty text has an error of its own; one
of operators and literals lacks an operand; and a fault after the opening of a chain is reported as
it is, whatever follows it. -/
theorem outcome_classes (text : Text) :
    ((∃ value : α, (evaluate text : Evaluation α).outcome = .ok value) ↔
        ∃ chain : Chain, text = chain.text) ∧
      ((evaluate text : Evaluation α).outcome = .error .empty ↔ text = []) ∧
      (∀ n, (evaluate text : Evaluation α).outcome ≠ .error (.unbalanced n)) ∧
      (Lexical text → text ≠ [] → (¬ ∃ chain : Chain, text = chain.text) →
        ∃ op, (evaluate text : Evaluation α).outcome = .error (.missingOperand op)) ∧
      ∀ front bad back error, text = front ++ bad ++ back → Opening front →
        Fault front bad back error →
        (evaluate text : Evaluation α).outcome = .error error := by
  refine ⟨ok_iff_chain, outcome_empty_iff, outcome_ne_unbalanced text, missing_of_lexical, ?_⟩
  intro front bad back error split opening fault
  rw [split]
  exact outcome_of_fault opening fault

end

end Calculator
