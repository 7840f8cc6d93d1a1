import Mathlib.Logic.Relation
import Calculator.FloatArithmetic
import Calculator.Proofs.StackedOperators

namespace Calculator

theorem Operator.one_le_precedence (op : Operator) : 1 ≤ op.precedence := by cases op <;> decide

theorem Operator.precedence_le_three (op : Operator) : op.precedence ≤ 3 := by cases op <;> decide

theorem length_le_precedence {op : Operator} {rest : List Operator}
    (falls : (op :: rest).Pairwise fun above op => op.precedence < above.precedence) :
    (op :: rest).length ≤ op.precedence := by
  induction rest generalizing op with
  | nil => exact op.one_le_precedence
  | cons next rest ih =>
      rcases List.pairwise_cons.mp falls with ⟨looser, lower⟩
      have first := looser next List.mem_cons_self
      have others := ih lower
      rw [List.length_cons]
      omega

theorem countP_numeral_le {tokens : List Token}
    (apart : tokens.IsChain fun token next => ¬ (token.isNumeral ∧ next.isNumeral))
    (clean : ∀ token ∈ tokens, token.fault? = none) :
    tokens.countP Token.isNumeral ≤ tokens.countP Token.isOperator + 1 ∧
      ((∀ token ∈ tokens.head?, ¬ token.isNumeral) →
        tokens.countP Token.isNumeral ≤ tokens.countP Token.isOperator) := by
  induction tokens with
  | nil => simp
  | cons token tokens ih =>
      rcases List.isChain_cons.mp apart with ⟨ahead, later⟩
      rcases List.forall_mem_cons.mp clean with ⟨first, others⟩
      rcases ih later others with ⟨more, fewer⟩
      cases token with
      | numeral run =>
          have none : ∀ next ∈ tokens.head?, ¬ next.isNumeral := fun next member number =>
            ahead next member ⟨rfl, number⟩
          have counts := fewer none
          constructor
          · simpa [List.countP_cons, Token.isNumeral, Token.isOperator] using counts
          · intro outside
            exact absurd rfl (outside (.numeral run) rfl)
      | operator op =>
          simp only [List.countP_cons, Token.isNumeral, Token.isOperator, if_true,
            Bool.false_eq_true, if_false, Nat.add_zero]
          exact ⟨Nat.le_succ_of_le more, fun _ => more⟩
      | unexpected c => cases first

namespace Machine

variable {α : Type}

/-- Operands and operators are in balance with what was read, and the stacked operators are looser
from one to the next. -/
structure Ordered (read : List Token) (m : Machine α) : Prop where
  balanced : Balanced read m
  falls : m.operators.Pairwise fun above op => op.precedence < above.precedence

/-- The stacks of a state that has read these tokens: precedences rise from the bottom to the top, and
neither stack grows beyond a few. -/
structure Bounded (read : List Token) (m : Machine α) : Prop where
  rises : (m.operators.reverse.map Operator.precedence).Pairwise (· < ·)
  operators : m.operators.length ≤ 3
  balance : (m.operands.length : Int) - m.operators.length =
    read.countP Token.isNumeral - read.countP Token.isOperator
  surplus : (read.countP Token.isNumeral : Int) - read.countP Token.isOperator ≤ 1
  operands : m.operands.length ≤ 4

theorem Ordered.start : Ordered [] ({} : Machine α) := ⟨balanced_start, .nil⟩

theorem Ordered.bounded {read : List Token} {m : Machine α} (ordered : Ordered read m)
    (surplus : read.countP Token.isNumeral ≤ read.countP Token.isOperator + 1) : Bounded read m := by
  have few : m.operators.length ≤ 3 := by
    cases stacked : m.operators with
    | nil => exact Nat.zero_le 3
    | cons op rest =>
        have falls := ordered.falls
        rw [stacked] at falls
        exact Nat.le_trans (length_le_precedence falls) op.precedence_le_three
  have balance := ordered.balanced.balance
  refine ⟨?_, few, by omega, by omega, by omega⟩
  rw [List.pairwise_map, List.pairwise_reverse]
  exact ordered.falls

variable [Arithmetic α]

/-- One turn of settling: the topmost operator is tight enough and is applied. -/
inductive Turn (rank : Nat) (m : Machine α) : Machine α → Prop
  | apply {op : Operator} {rest : List Operator} {next : Machine α}
      (top : m.operators = op :: rest) (tight : rank ≤ op.precedence)
      (applied : { m with operators := rest }.reduce op = .ok next) : Turn rank m next

def Turns (rank : Nat) : Machine α → Machine α → Prop := Relation.ReflTransGen (Turn rank)

theorem reduce_operators (m : Machine α) (op : Operator) (ops : List Operator) :
    { m with operators := ops }.reduce op =
      (m.reduce op).map fun next => { next with operators := ops } := by
  rcases m with ⟨_ | ⟨right, _ | ⟨left, rest⟩⟩, operators, steps⟩ <;> rfl

theorem turn_iff {rank : Nat} {op : Operator} {rest : List Operator} {m next : Machine α} :
    Turn rank { m with operators := op :: rest } next ↔
      rank ≤ op.precedence ∧
        ∃ middle, m.reduce op = .ok middle ∧ next = { middle with operators := rest } := by
  constructor
  · intro turn
    rcases turn with ⟨top, tight, applied⟩
    cases top
    have applied := (reduce_operators m op rest).symm.trans applied
    cases reduced : m.reduce op with
    | error failure =>
        rw [reduced] at applied
        cases applied
    | ok middle =>
        rw [reduced] at applied
        cases applied
        exact ⟨tight, middle, rfl, rfl⟩
  · rintro ⟨tight, middle, reduced, rfl⟩
    refine .apply rfl tight ((reduce_operators m op rest).trans ?_)
    rw [reduced]
    rfl

theorem settle_ok_iff {rank : Nat} {ops : List Operator} {m next : Machine α} :
    settle rank ops m = .ok next ↔
      Turns rank { m with operators := ops } next ∧
        ∀ op ∈ next.operators.head?, op.precedence < rank := by
  -- the topmost operator decides whether there is a turn or the end is reached
  induction ops generalizing m with
  | nil =>
      constructor
      · intro settled
        cases settled
        exact ⟨.refl, by simp⟩
      · rintro ⟨turns, _⟩
        rcases turns.cases_head with same | ⟨state, turn, _⟩
        · exact congrArg Except.ok same
        · rcases turn with ⟨top, _, _⟩
          cases top
  | cons op rest ih =>
      rw [settle]
      by_cases tight : rank ≤ op.precedence
      · rw [if_pos tight, bind_ok]
        constructor
        · rintro ⟨middle, reduced, remaining⟩
          rcases ih.mp remaining with ⟨turns, stop⟩
          exact ⟨.head (turn_iff.mpr ⟨tight, middle, reduced, rfl⟩) turns, stop⟩
        · rintro ⟨turns, stop⟩
          rcases turns.cases_head with same | ⟨state, turn, later⟩
          · rw [← same] at stop
            exact absurd (stop op rfl) (Nat.not_lt.mpr tight)
          · rcases turn_iff.mp turn with ⟨_, middle, reduced, rfl⟩
            exact ⟨middle, reduced, ih.mpr ⟨later, stop⟩⟩
      · rw [if_neg tight]
        constructor
        · intro settled
          cases settled
          refine ⟨.refl, ?_⟩
          rintro _ ⟨⟩
          exact Nat.lt_of_not_le tight
        · rintro ⟨turns, _⟩
          rcases turns.cases_head with same | ⟨state, turn, _⟩
          · exact congrArg Except.ok same
          · exact absurd (turn_iff.mp turn).1 tight

namespace Ordered

variable {read : List Token} {m next : Machine α}

theorem turn (ordered : Ordered read m) {rank : Nat} (turn : Turn rank m next) :
    Ordered read next := by
  rcases turn with ⟨top, tight, applied⟩
  rcases reduce_ok applied with ⟨left, right, others, operands, rfl⟩
  have balance := ordered.balanced.balance
  have falls := ordered.falls
  rw [top] at falls balance
  refine ⟨⟨?_, fun _ => Or.inl (List.cons_ne_nil _ _)⟩, (List.pairwise_cons.mp falls).2⟩
  change m.operands = _ at operands
  simp only [operands, List.length_cons] at balance ⊢
  omega

theorem turns (ordered : Ordered read m) {rank : Nat} (turns : Turns rank m next) :
    Ordered read next := by
  induction turns with
  | refl => exact ordered
  | tail _ last ih => exact ih.turn last

theorem feed (ordered : Ordered read m) {token : Token} (fed : m.feed token = .ok next) :
    Ordered (read ++ [token]) next := by
  refine ⟨(feed_ok fed ordered.balanced).2, ?_⟩
  rcases feed_cases fed with ⟨run, d, _, _, rfl⟩ | ⟨op, settled, _, done, rfl⟩
  · exact ordered.falls
  · rcases settle_ok_iff.mp done with ⟨turns, top⟩
    have falls := (ordered.turns turns).falls
    exact .cons (looser_of_falls falls top) falls

theorem feeds {tokens : List Token} (ordered : Ordered read m)
    (fed : tokens.foldlM Machine.feed m = .ok next) : Ordered (read ++ tokens) next := by
  induction tokens generalizing read m with
  | nil =>
      cases fed
      simpa using ordered
  | cons token tokens ih =>
      rw [List.foldlM_cons] at fed
      rcases bind_ok.mp fed with ⟨middle, first, rest⟩
      simpa using ih (ordered.feed first) rest

end Ordered

/-- Whatever the text, the stacks are bounded in every state that its evaluation goes through: between
two tokens, and after each turn of settling, whether an operator or the end of the text calls for it. -/
theorem stacks_bounded {text : Text} {read rest : List Token} {m : Machine α}
    (split : Token.scan text = read ++ rest) (fed : read.foldlM feed {} = .ok m) :
    run (Token.scan text) = rest.foldlM feed m >>= finish ∧ Bounded read m ∧
      (∀ rank state, Turns rank m state → Bounded read state) ∧
      ∀ rank next, settle rank m.operators m = .ok next ↔
        Turns rank m next ∧ ∀ op ∈ next.operators.head?, op.precedence < rank := by
  have ordered : Ordered read m := Ordered.start.feeds fed
  have clean := (feeds_ok fed balanced_start).1
  have apart := (Token.reads_scan text).apart
  rw [split] at apart
  have surplus := (countP_numeral_le apart.left_of_append clean).1
  refine ⟨?_, ordered.bounded surplus, fun rank state turns => ?_, fun rank next => settle_ok_iff⟩
  · rw [run, split, List.foldlM_append, fed]
    rfl
  · exact (ordered.turns turns).bounded surplus

theorem stacks_bounded_full :
    let text : Text := "1-2*3^4+".toList
    let read : List Token := Token.scan "1-2*3^4".toList
    Token.scan text = read ++ [.operator .add] ∧
      ∃ m : Machine Float, read.foldlM feed {} = .ok m ∧
        m.operators = [.pow, .mul, .sub] ∧ m.operands.length = 4 ∧ Bounded read m ∧
        ∀ state, Turns 1 m state → Bounded read state := by
  intro text read
  have split : Token.scan text = read ++ [.operator .add] := by decide
  have reached : ∃ m : Machine Float, read.foldlM feed {} = .ok m ∧
      m.operators = [.pow, .mul, .sub] ∧ m.operands.length = 4 := ⟨_, rfl, rfl, rfl⟩
  obtain ⟨m, fed, operators, operands⟩ := reached
  obtain ⟨_, bounded, inner, _⟩ := stacks_bounded split fed
  exact ⟨split, m, fed, operators, operands, bounded, inner 1⟩

end Machine

end Calculator
