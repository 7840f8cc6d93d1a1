import Calculator.Proofs.Chain

/-! The two stacks of an evaluation hold the parse tree of what was read.

While a chain is read, the operands are the values of the left operands of the pending operators,
with the value of the last tree on top, and the operators are the pending ones. Applying an operator
replaces two values by the value of the node that it completes, so at the end the one operand left is
the value of the whole tree, and the applications made are those at its nodes. -/

namespace Calculator

namespace Chain

theorem links_apart (links : List Link) :
    ∀ c ∈ (links.flatMap Link.text).head?, ¬ Decimal.isNumeralChar c := by
  cases links with
  | nil => simp
  | cons link links => simpa [Link.text] using Decimal.symbol_not_numeral link.op

theorem scan_links (links : List Link) :
    Token.scan (links.flatMap Link.text) = links.flatMap Link.tokens := by
  induction links with
  | nil => rfl
  | cons link links ih =>
      have cut := Token.scan_run_append link.l.run (links.flatMap Link.text)
        link.l.literal.nonempty link.l.literal.numeral (links_apart links)
      calc
        Token.scan ((link :: links).flatMap Link.text) =
            .operator link.op :: Token.scan (link.l.run ++ links.flatMap Link.text) :=
          Token.scan_symbol link.op _
        _ = .operator link.op :: .numeral link.l.run :: Token.scan (links.flatMap Link.text) := by
          rw [cut]
        _ = (link :: links).flatMap Link.tokens := by
          rw [ih]
          rfl

theorem scan_text (chain : Chain) : Token.scan chain.text = chain.tokens := by
  rw [text, Token.scan_run_append _ _ chain.first.literal.nonempty chain.first.literal.numeral
    (links_apart chain.rest), scan_links]
  rfl

end Chain

namespace Machine

variable {α : Type} [Arithmetic α]

/-- The state after the last literal of `tree`, with the operators of the stack pending. -/
def holding (stack : List Pending) (tree : Tree) : Machine α where
  operands := tree.value :: stack.map fun pending => pending.left.value
  operators := stack.map fun pending => pending.op
  steps := tree.steps.reverse ++ stack.flatMap fun pending => pending.left.steps.reverse

def awaiting (stack : List Pending) : Machine α where
  operands := stack.map fun pending => pending.left.value
  operators := stack.map fun pending => pending.op
  steps := stack.flatMap fun pending => pending.left.steps.reverse

theorem reduce_holding (top : Pending) (stack : List Pending) (tree : Tree)
    (stale : List Operator) :
    reduce top.op { (holding (top :: stack) tree : Machine α) with operators := stale } =
      .ok { holding stack (.node top.op top.left tree) with operators := stale } := by
  simp [reduce, holding, Tree.value, Tree.steps]

theorem settle_holding (rank : Nat) (stack : List Pending) (tree : Tree) (stale : List Operator) :
    settle rank (stack.map fun pending => pending.op)
        { (holding stack tree : Machine α) with operators := stale } =
      .ok (holding (Pending.settle rank stack tree).1 (Pending.settle rank stack tree).2) := by
  -- settling is given its operators, so those of the state are stale and never read
  induction stack generalizing tree with
  | nil => rfl
  | cons top stack ih =>
      by_cases tight : rank ≤ top.op.rank
      · simp only [List.map_cons, settle, Pending.settle, top.op.precedence_eq_rank, tight, if_true]
        rw [reduce_holding]
        exact ih _
      · simp only [List.map_cons, settle, Pending.settle, top.op.precedence_eq_rank, tight, if_false]
        rfl

theorem settle_operators (rank : Nat) (stack : List Pending) (tree : Tree) :
    (holding stack tree : Machine α).settle rank (holding stack tree : Machine α).operators =
      .ok (holding (Pending.settle rank stack tree).1 (Pending.settle rank stack tree).2) :=
  settle_holding rank stack tree _

theorem feed_literal (stack : List Pending) (l : Literal) :
    (awaiting stack : Machine α).feed (.numeral l.run) = .ok (holding stack (.literal l)) := by
  simp [feed, l.ofRun?_run, awaiting, holding, Tree.value, Tree.steps]

theorem feed_operator (stack : List Pending) (tree : Tree) (op : Operator) :
    (holding stack tree : Machine α).feed (.operator op) =
      .ok (awaiting (⟨(Pending.settle op.rank stack tree).2, op⟩ ::
        (Pending.settle op.rank stack tree).1)) := by
  change settle op.precedence _ _ >>= _ = _
  rw [op.precedence_eq_rank, settle_operators]
  rfl

theorem feed_links (stack : List Pending) (tree : Tree) (links : List Link) :
    (links.flatMap Link.tokens).foldlM feed
        (holding stack tree : Machine α) =
      .ok (holding (Chain.extend stack tree links).1 (Chain.extend stack tree links).2) := by
  induction links generalizing stack tree with
  | nil => rfl
  | cons link links ih =>
      simp only [List.flatMap_cons, Link.tokens, List.cons_append, List.nil_append, List.foldlM_cons]
      rw [feed_operator]
      change feed (awaiting _) _ >>= _ = _
      rw [feed_literal]
      exact ih _ _

theorem feed_tokens (chain : Chain) :
    chain.tokens.foldlM feed ({} : Machine α) =
      .ok (holding (Chain.extend [] (.literal chain.first) chain.rest).1
        (Chain.extend [] (.literal chain.first) chain.rest).2) := by
  rw [Chain.tokens, List.foldlM_cons]
  change feed (awaiting []) _ >>= _ = _
  rw [feed_literal]
  exact feed_links [] (.literal chain.first) chain.rest

theorem finish_holding (stack : List Pending) (tree : Tree) :
    (holding stack tree : Machine α).finish =
      .ok ((Pending.close stack tree).value, (Pending.close stack tree).steps.reverse) := by
  change settle _ _ _ >>= _ = _
  rw [settle_operators, Pending.settle_zero]
  simp [bind, Except.bind, holding]

end Machine

theorem evaluate_text {α : Type} [Arithmetic α] (chain : Chain) :
    (evaluate chain.text : Evaluation α) = ⟨.ok chain.tree.value, chain.tree.steps⟩ := by
  have ran : Machine.run chain.tokens = .ok (chain.tree.value (α := α), chain.tree.steps.reverse) := by
    rw [Machine.run, Machine.feed_tokens]
    exact Machine.finish_holding _ _
  rw [evaluate, Chain.scan_text, ran]
  simp

theorem evaluate_literal {α : Type} [Arithmetic α] (l : Literal) :
    (evaluate l.run : Evaluation α) = ⟨.ok (Arithmetic.ofDecimal l.decimal), []⟩ := by
  have single : l.run = Chain.text ⟨l, []⟩ := (List.append_nil l.run).symm
  rw [single, evaluate_text]
  rfl

/-- The text of a chain has one parse tree, and evaluating it gives the value of that tree in every
arithmetic. -/
theorem evaluate_eq_parse_value (chain : Chain) :
    ∃ tree : Tree, (∀ other, Tree.Parses chain.text other ↔ other = tree) ∧
      ∀ (α : Type) [Arithmetic α], (evaluate chain.text : Evaluation α).outcome = .ok tree.value := by
  refine ⟨chain.tree, ?_, ?_⟩
  · intro other
    constructor
    · intro parses
      exact parses.unique chain.parses_tree
    · intro same
      rw [same]
      exact chain.parses_tree
  · intro α _
    rw [evaluate_text]

theorem evaluate_eq_parse_value_mixed :
    let text : Text := "8-2+3*4^2^3/5".toList
    let leaf (c : Char) (digit : c.isDigit) : Tree := .literal (.ofDigit c digit)
    let tree : Tree := .node .add (.node .sub (leaf '8' rfl) (leaf '2' rfl))
      (.node .div (.node .mul (leaf '3' rfl)
        (.node .pow (.node .pow (leaf '4' rfl) (leaf '2' rfl)) (leaf '3' rfl))) (leaf '5' rfl))
    (∀ other, Tree.Parses text other ↔ other = tree) ∧
      ∀ (α : Type) [Arithmetic α],
        let num (n : Nat) : α := Arithmetic.ofDecimal ⟨n, 0⟩
        let app (op : Operator) (left right : α) : α := Arithmetic.apply op left right
        (evaluate text : Evaluation α).outcome = .ok (app .add (app .sub (num 8) (num 2))
          (app .div (app .mul (num 3) (app .pow (app .pow (num 4) (num 2)) (num 3))) (num 5))) := by
  intro text leaf tree
  let chain : Chain := ⟨.ofDigit '8' rfl, [⟨.sub, .ofDigit '2' rfl⟩, ⟨.add, .ofDigit '3' rfl⟩,
    ⟨.mul, .ofDigit '4' rfl⟩, ⟨.pow, .ofDigit '2' rfl⟩, ⟨.pow, .ofDigit '3' rfl⟩,
    ⟨.div, .ofDigit '5' rfl⟩]⟩
  have same : chain.text = text := rfl
  have grouped : tree.Grouped := by
    simp [tree, leaf, Tree.Grouped, Tree.Binds, Tree.operators, Operator.rank]
  obtain ⟨only, parses, value⟩ := evaluate_eq_parse_value chain
  obtain rfl : tree = only := (parses tree).mp ⟨rfl, grouped⟩
  exact ⟨parses, fun α _ => value α⟩

end Calculator
