import Mathlib.Tactic.ByContra
import Calculator.Evaluation

/-! What an evaluation has in common with the tokens it has read.

An application removes one operand and one operator, so operands and operators differ by as much as
the numerals and operators read. From this alone the end of a run tells how many there were, and an
error tells whether a token was at fault by itself. -/

namespace Calculator

namespace Token

def isNumeral : Token → Bool
  | numeral _ => true
  | _ => false

def isOperator : Token → Bool
  | operator _ => true
  | _ => false

/-- The error that a token is answered with in every state. -/
def fault? : Token → Option EvalError
  | numeral run => if (Decimal.ofRun? run).isSome then none else some (.invalidNumber run)
  | operator _ => none
  | unexpected c => some (.unexpectedCharacter c)

end Token

namespace Machine

theorem bind_ok {ε β γ : Type} {x : Except ε β} {f : β → Except ε γ} {c : γ} :
    x >>= f = .ok c ↔ ∃ b, x = .ok b ∧ f b = .ok c := by
  cases x <;> simp [bind, Except.bind]

theorem bind_error {ε β γ : Type} {x : Except ε β} {f : β → Except ε γ} {e : ε} :
    x >>= f = .error e ↔ x = .error e ∨ ∃ b, x = .ok b ∧ f b = .error e := by
  cases x <;> simp [bind, Except.bind]

variable {α : Type}

structure Balanced (read : List Token) (m : Machine α) : Prop where
  balance : m.operands.length + read.countP Token.isOperator =
    m.operators.length + read.countP Token.isNumeral
  started : read ≠ [] → m.operands ≠ [] ∨ m.operators ≠ []

theorem balanced_start : Balanced [] ({} : Machine α) :=
  ⟨rfl, fun nonempty => absurd rfl nonempty⟩

variable [Arithmetic α]

theorem reduce_ok {op : Operator} {m next : Machine α} (applied : m.reduce op = .ok next) :
    ∃ left right rest, m.operands = right :: left :: rest ∧
      next = { m with
        operands := Arithmetic.apply op left right :: rest
        steps := ⟨op, left, right, Arithmetic.apply op left right⟩ :: m.steps } := by
  unfold reduce at applied
  split at applied
  case h_1 right left rest operands =>
    exact ⟨left, right, rest, operands, (Except.ok.inj applied).symm⟩
  case h_2 => cases applied

theorem reduce_error {op : Operator} {m : Machine α} {failure : Failure α}
    (failed : m.reduce op = .error failure) : failure.error = .missingOperand op := by
  unfold reduce at failed
  split at failed
  · cases failed
  · rw [← Except.error.inj failed]

/-- Settling trades operands for operators, and never takes the last operand. -/
theorem settle_ok {rank : Nat} {ops : List Operator} {m next : Machine α}
    (settled : settle rank ops m = .ok next) :
    next.operands.length + ops.length = m.operands.length + next.operators.length ∧
      (next.operands = [] → m.operands = [] ∧ next.operators = ops) := by
  induction ops generalizing m with
  | nil =>
      cases settled
      simp
  | cons op rest ih =>
      rw [settle] at settled
      by_cases tight : rank ≤ op.precedence
      · rw [if_pos tight] at settled
        rcases bind_ok.mp settled with ⟨middle, applied, remaining⟩
        rcases reduce_ok applied with ⟨left, right, others, operands, rfl⟩
        rcases ih remaining with ⟨count, kept⟩
        constructor
        · simp only [operands, List.length_cons] at count ⊢
          omega
        · intro none
          exact absurd (kept none).1 (by simp)
      · rw [if_neg tight] at settled
        cases settled
        simp

theorem settle_error {rank : Nat} {ops : List Operator} {m : Machine α} {failure : Failure α}
    (failed : settle rank ops m = .error failure) :
    ∃ op ∈ ops, failure.error = .missingOperand op := by
  induction ops generalizing m with
  | nil => cases failed
  | cons op rest ih =>
      rw [settle] at failed
      by_cases tight : rank ≤ op.precedence
      · rw [if_pos tight] at failed
        rcases bind_error.mp failed with first | ⟨middle, _, later⟩
        · exact ⟨op, by simp, reduce_error first⟩
        · rcases ih later with ⟨other, member, missing⟩
          exact ⟨other, List.mem_cons_of_mem _ member, missing⟩
      · rw [if_neg tight] at failed
        cases failed

theorem settle_zero_operators {ops : List Operator} {m next : Machine α}
    (settled : settle 0 ops m = .ok next) : next.operators = [] := by
  induction ops generalizing m with
  | nil =>
      cases settled
      rfl
  | cons op rest ih =>
      rw [settle, if_pos (Nat.zero_le _)] at settled
      rcases bind_ok.mp settled with ⟨middle, _, remaining⟩
      exact ih remaining

theorem feed_fault {m : Machine α} {token : Token} {error : EvalError}
    (fault : token.fault? = some error) : m.feed token = .error ⟨error, m.steps⟩ := by
  cases token with
  | numeral run =>
      cases found : Decimal.ofRun? run with
      | none =>
          simp only [Token.fault?, found, Option.isSome_none, Bool.false_eq_true, if_false,
            Option.some.injEq] at fault
          simp [feed, found, fault]
      | some d => simp [Token.fault?, found] at fault
  | operator op => cases fault
  | unexpected c =>
      cases fault
      rfl

theorem feed_cases {m next : Machine α} {token : Token} (fed : m.feed token = .ok next) :
    (∃ run d, token = .numeral run ∧ Decimal.ofRun? run = some d ∧
      next = { m with operands := Arithmetic.ofDecimal d :: m.operands }) ∨
    ∃ op settled, token = .operator op ∧ settle op.precedence m.operators m = .ok settled ∧
      next = { settled with operators := op :: settled.operators } := by
  cases token with
  | unexpected c => cases fed
  | numeral run =>
      cases found : Decimal.ofRun? run with
      | none => simp [feed, found] at fed
      | some d =>
          simp only [feed, found, Except.ok.injEq] at fed
          exact Or.inl ⟨run, d, rfl, found, fed.symm⟩
  | operator op =>
      rcases bind_ok.mp fed with ⟨settled, done, stacked⟩
      cases stacked
      exact Or.inr ⟨op, settled, rfl, done, rfl⟩

theorem feed_ok {m next : Machine α} {token : Token} {read : List Token}
    (fed : m.feed token = .ok next) (balanced : Balanced read m) :
    token.fault? = none ∧ Balanced (read ++ [token]) next := by
  have clean : token.fault? = none := by
    cases fault : token.fault? with
    | none => rfl
    | some error =>
        rw [feed_fault fault] at fed
        cases fed
  refine ⟨clean, ?_⟩
  have balance := balanced.balance
  rcases feed_cases fed with ⟨run, d, rfl, _, rfl⟩ | ⟨op, settled, rfl, done, rfl⟩
  · constructor
    · simp [Token.isOperator, Token.isNumeral]
      omega
    · simp
  · have traded := (settle_ok done).1
    constructor
    · simp [Token.isOperator, Token.isNumeral]
      omega
    · simp

theorem feed_error {m : Machine α} {token : Token} {failure : Failure α}
    (failed : m.feed token = .error failure) :
    token.fault? = some failure.error ∨ ∃ op, failure.error = .missingOperand op := by
  cases fault : token.fault? with
  | some error =>
      rw [feed_fault fault] at failed
      cases failed
      exact Or.inl rfl
  | none =>
      right
      cases token with
      | unexpected c => cases fault
      | numeral run =>
          cases found : Decimal.ofRun? run with
          | none => simp [Token.fault?, found] at fault
          | some d => simp [feed, found] at failed
      | operator op =>
          rcases bind_error.mp failed with first | ⟨middle, _, stacked⟩
          · rcases settle_error first with ⟨other, _, missing⟩
            exact ⟨other, missing⟩
          · cases stacked

theorem finish_ok {m : Machine α} {result : α × List (Step α)} (finished : m.finish = .ok result) :
    m.operands.length = m.operators.length + 1 := by
  rcases bind_ok.mp finished with ⟨last, settled, single⟩
  have traded := (settle_ok settled).1
  have drained := settle_zero_operators settled
  have one : last.operands.length = 1 := by
    split at single <;> simp_all
  simp only [drained, one, List.length_nil] at traded
  omega

theorem finish_error {m : Machine α} {failure : Failure α} (failed : m.finish = .error failure) :
    (∃ op, failure.error = .missingOperand op) ∨
      (failure.error = .empty ∧ m.operands = [] ∧ m.operators = []) ∨
      ∃ n, failure.error = .unbalanced n ∧ 2 ≤ n ∧
        m.operands.length = m.operators.length + n := by
  rcases bind_error.mp failed with first | ⟨last, settled, rest⟩
  · rcases settle_error first with ⟨op, _, missing⟩
    exact Or.inl ⟨op, missing⟩
  · rcases settle_ok settled with ⟨traded, kept⟩
    have drained := settle_zero_operators settled
    split at rest
    case h_1 => cases rest
    case h_2 none =>
        rcases kept none with ⟨operands, operators⟩
        cases rest
        exact Or.inr (Or.inl ⟨rfl, operands, by rw [← operators, drained]⟩)
    case h_3 several notOne notNone =>
        cases rest
        refine Or.inr (Or.inr ⟨_, rfl, ?_, ?_⟩)
        · match several : last.operands with
          | [] => exact absurd several notNone
          | [value] => exact absurd several (notOne value)
          | _ :: _ :: _ => simp
        · simp only [drained, List.length_nil] at traded
          omega

theorem feeds_ok {tokens read : List Token} {m last : Machine α}
    (fed : tokens.foldlM feed m = .ok last) (balanced : Balanced read m) :
    (∀ token ∈ tokens, token.fault? = none) ∧ Balanced (read ++ tokens) last := by
  induction tokens generalizing read m with
  | nil =>
      cases fed
      simpa using balanced
  | cons token tokens ih =>
      rw [List.foldlM_cons] at fed
      rcases bind_ok.mp fed with ⟨next, first, rest⟩
      rcases feed_ok first balanced with ⟨clean, kept⟩
      rcases ih rest kept with ⟨others, final⟩
      exact ⟨by simpa [clean] using others, by simpa using final⟩

theorem feeds_error {tokens : List Token} {m : Machine α} {failure : Failure α}
    (failed : tokens.foldlM feed m = .error failure) :
    (∃ token ∈ tokens, token.fault? = some failure.error) ∨
      ∃ op, failure.error = .missingOperand op := by
  induction tokens generalizing m with
  | nil => cases failed
  | cons token tokens ih =>
      rw [List.foldlM_cons] at failed
      rcases bind_error.mp failed with first | ⟨next, _, rest⟩
      · rcases feed_error first with fault | missing
        · exact Or.inl ⟨token, by simp, fault⟩
        · exact Or.inr missing
      · rcases ih rest with ⟨other, member, fault⟩ | missing
        · exact Or.inl ⟨other, List.mem_cons_of_mem _ member, fault⟩
        · exact Or.inr missing

theorem run_ok {tokens : List Token} {result : α × List (Step α)}
    (ran : run tokens = .ok result) :
    (∀ token ∈ tokens, token.fault? = none) ∧
      tokens.countP Token.isNumeral = tokens.countP Token.isOperator + 1 := by
  rcases bind_ok.mp ran with ⟨last, fed, finished⟩
  rcases feeds_ok fed balanced_start with ⟨clean, balanced⟩
  have counted := finish_ok finished
  have balance := balanced.balance
  rw [List.nil_append] at balance
  exact ⟨clean, by omega⟩

theorem run_error {tokens : List Token} {failure : Failure α}
    (ran : run tokens = .error failure) :
    (∃ token ∈ tokens, token.fault? = some failure.error) ∨
      (∃ op, failure.error = .missingOperand op) ∨ (failure.error = .empty ∧ tokens = []) ∨
      ∃ n, failure.error = .unbalanced n ∧ 2 ≤ n ∧ (∀ token ∈ tokens, token.fault? = none) ∧
        tokens.countP Token.isNumeral = tokens.countP Token.isOperator + n := by
  rcases bind_error.mp ran with failed | ⟨last, fed, finished⟩
  · rcases feeds_error failed with fault | missing
    · exact Or.inl fault
    · exact Or.inr (Or.inl missing)
  · rcases feeds_ok fed balanced_start with ⟨clean, balanced⟩
    rw [List.nil_append] at balanced
    rcases finish_error finished with missing | ⟨empty, operands, operators⟩ | ⟨n, left, many, count⟩
    · exact Or.inr (Or.inl missing)
    · refine Or.inr (Or.inr (Or.inl ⟨empty, ?_⟩))
      by_contra nonempty
      rcases balanced.started nonempty with present | present
      · exact present operands
      · exact present operators
    · have balance := balanced.balance
      exact Or.inr (Or.inr (Or.inr ⟨n, left, many, clean, by omega⟩))

end Machine

end Calculator
