import Mathlib.Data.Bool.AllAny
import Mathlib.Data.List.Induction
import Calculator.Proofs.EqualsFailure
import Calculator.Proofs.StackedOperators

namespace Calculator

/-- The operator stands in the text where it lacks an operand. -/
def Wanting (text : Text) (op : Operator) : Prop :=
  ∃ front back, text = front ++ op.symbol :: back ∧ Lacks front back

/-- The operator lacks an operand, or one that it waits for does. -/
def Blamed (text : Text) (op : Operator) : Prop :=
  Wanting text op ∨ ∃ front inner back, text = front ++ op.symbol :: (inner ++ back) ∧
    Ragged front op inner back

/-- With so many operands the stacked operators can be applied in turn, but for blamed ones. -/
def Enough (text : Text) : Nat → List Operator → Prop
  | _, [] => True
  | operands, op :: rest => (Blamed text op ∨ 2 ≤ operands) ∧ Enough text (operands - 1) rest

theorem Hampered.blamed {read rest : Text} {op : Operator} (hampered : Hampered read rest op) :
    Blamed (read ++ rest) op := by
  obtain ⟨front, tail, rfl, ragged⟩ := hampered
  exact Or.inr ⟨front, tail, rest, by simp, ragged⟩

theorem Waits.blamed {read rest : Text} {op : Operator} (waits : Waits read op)
    (before : ∀ c ∈ read.getLast?, Operator.isSymbol c)
    (after : ∀ c ∈ rest.head?, Operator.isSymbol c) : Blamed (read ++ rest) op := by
  rcases waits.last_or_hampered before after with ⟨front, rfl⟩ | hampered
  · exact Or.inl ⟨front, rest, by simp, Or.inr after⟩
  · exact hampered.blamed

theorem enough_of_blamed {text : Text} {ops : List Operator} (blamed : ∀ op ∈ ops, Blamed text op)
    (operands : Nat) : Enough text operands ops := by
  induction ops generalizing operands with
  | nil => trivial
  | cons op rest ih =>
      obtain ⟨first, others⟩ := List.forall_mem_cons.mp blamed
      exact ⟨Or.inl first, ih others _⟩

namespace Machine

variable {α : Type} [Arithmetic α]

theorem settle_enough {text : Text} {rank : Nat} {ops : List Operator} {m : Machine α}
    (enough : Enough text m.operands.length ops) :
    (∀ next, settle rank ops m = .ok next → Enough text next.operands.length next.operators) ∧
      ∀ failure op, settle rank ops m = .error failure → failure.error = .missingOperand op →
        Blamed text op := by
  induction ops generalizing m with
  | nil =>
      refine ⟨?_, fun _ _ failed => by cases failed⟩
      rintro _ ⟨⟩
      trivial
  | cons op rest ih =>
      obtain ⟨first, others⟩ := enough
      rw [settle]
      by_cases tight : rank ≤ op.precedence
      · rw [if_pos tight]
        cases applied : m.reduce op with
        | error failure =>
            refine ⟨fun _ settled => (by cases settled), ?_⟩
            rintro _ other ⟨⟩ named
            obtain ⟨rfl, short⟩ := reduce_short applied
            cases named
            exact first.resolve_right (Nat.not_le_of_lt short)
        | ok middle =>
            obtain ⟨left, right, lower, operands, rfl⟩ := reduce_ok applied
            rw [operands] at others
            exact ih others
      · rw [if_neg tight]
        refine ⟨?_, fun _ _ failed => by cases failed⟩
        rintro _ ⟨⟩
        exact ⟨first, others⟩

/-- Operators and operands as they are before an operand, with the one to come counted. -/
structure AwaitsEnough (text read rest : Text) (m : Machine α) : Prop where
  split : text = read ++ rest
  stacked : Stacked read m.operators
  before : ∀ c ∈ read.getLast?, Operator.isSymbol c
  enough : Enough text (m.operands.length + 1) m.operators

structure HoldsEnough (text read rest : Text) (m : Machine α) : Prop where
  split : text = read ++ rest
  stacked : Stacked read m.operators
  nonempty : m.operands ≠ []
  enough : Enough text m.operands.length m.operators

omit [Arithmetic α] in
theorem AwaitsEnough.blamed {text read rest : Text} {m : Machine α}
    (awaits : AwaitsEnough text read rest m) (after : ∀ c ∈ rest.head?, Operator.isSymbol c) :
    ∀ op ∈ m.operators, Blamed text op := fun op member =>
  awaits.split ▸ (awaits.stacked.waits op member).blamed awaits.before after

theorem AwaitsEnough.operator {text read rest : Text} {m next : Machine α} {op : Operator}
    (awaits : AwaitsEnough text read (op.symbol :: rest) m)
    (fed : m.feed (.operator op) = .ok next) :
    AwaitsEnough text (read ++ [op.symbol]) rest next := by
  obtain ⟨settled, _, rfl, lower, stacked, looser⟩ := stacked_of_feed awaits.stacked fed
  have blamed := awaits.blamed (by simp)
  have wanting : Blamed text op := Or.inl ⟨read, rest, awaits.split, Or.inl awaits.before⟩
  exact {
    split := by rw [awaits.split]; simp
    stacked := stacked.push looser
    before := by simp
    enough := enough_of_blamed
      (List.forall_mem_cons.mpr ⟨wanting, fun other member => blamed other (lower.subset member)⟩) _ }

theorem HoldsEnough.operator {text read rest : Text} {m next : Machine α} {op : Operator}
    (holds : HoldsEnough text read (op.symbol :: rest) m)
    (fed : m.feed (.operator op) = .ok next) :
    AwaitsEnough text (read ++ [op.symbol]) rest next := by
  obtain ⟨settled, done, rfl, _, stacked, looser⟩ := stacked_of_feed holds.stacked fed
  have some : settled.operands ≠ [] := fun none => holds.nonempty ((settle_ok done).2 none).1
  have one := List.length_pos_iff.mpr some
  exact {
    split := by rw [holds.split]; simp
    stacked := stacked.push looser
    before := by simp
    enough := ⟨Or.inr (by dsimp only; omega), (settle_enough holds.enough).1 settled done⟩ }

/-- The run fails with a missing operand only for an operator to blame. -/
def BlamesOnly (text : Text) (result : Except (Failure α) (α × List (Step α))) : Prop :=
  ∀ failure op, result = .error failure → failure.error = .missingOperand op → Blamed text op

theorem settle_blames {text read rest : Text} {m : Machine α} {rank : Nat}
    (state : AwaitsEnough text read rest m ∨ HoldsEnough text read rest m)
    (after : ∀ c ∈ rest.head?, Operator.isSymbol c) {failure : Failure α} {op : Operator}
    (failed : m.settle rank m.operators = .error failure)
    (named : failure.error = .missingOperand op) : Blamed text op := by
  rcases state with awaits | holds
  · obtain ⟨other, member, missing⟩ := settle_error failed
    rw [EvalError.missingOperand.inj (named.symm.trans missing)]
    exact awaits.blamed after other member
  · exact (settle_enough holds.enough).2 failure op failed named

def blamesOnly (text : Text) : Invariant text (BlamesOnly (α := α) text) where
  Awaits := AwaitsEnough text
  Holds := HoldsEnough text
  start := ⟨rfl, .nil [], by simp, trivial⟩
  literal l awaits _ := {
    split := by rw [awaits.split]; simp
    stacked := awaits.stacked.append_run l.literal.numeral
    nonempty := List.cons_ne_nil _ _
    enough := awaits.enough }
  operator op state fed := state.elim (·.operator fed) (·.operator fed)
  stop := by
    rintro read rest m _ op state failed failure named ⟨⟩ missing
    rcases bind_error.mp failed with early | ⟨settled, _, late⟩
    · exact settle_blames state (by simp) early missing
    · cases late
  fault := by
    rintro read rest m error _ other failure op ⟨⟩ missing
    exact absurd missing (other op)
  finish := by
    intro read m state failure op failed missing
    rcases bind_error.mp failed with early | ⟨settled, _, late⟩
    · exact settle_blames state (by simp) early missing
    · split at late <;> cases late <;> cases missing

theorem settle_short {ops : List Operator} {m : Machine α} (short : m.operands.length = ops.length)
    {bottom : Operator} (last : bottom ∈ ops.getLast?) :
    ∃ steps, settle 0 ops m = .error ⟨.missingOperand bottom, steps⟩ := by
  induction ops generalizing m with
  | nil => cases last
  | cons op rest ih =>
      rw [settle, if_pos (Nat.zero_le _)]
      cases rest with
      | nil =>
          -- one operand is left for the operator at the bottom
          obtain ⟨value, single⟩ := List.length_eq_one_iff.mp short
          cases last
          exact ⟨m.steps, by simp [reduce, single, bind, Except.bind]⟩
      | cons next rest =>
          obtain ⟨right, _ | ⟨left, lower⟩, several⟩ := List.exists_cons_of_length_eq_add_one short
          · simp [several] at short
          · have applied : m.reduce op = .ok { m with
                operands := Arithmetic.apply op left right :: lower
                steps := ⟨op, left, right, Arithmetic.apply op left right⟩ :: m.steps } := by
              simp [reduce, several]
            rw [applied]
            exact ih (by simpa [several] using short) (by simpa using last)

end Machine

theorem Pending.root_close {stack : List Pending} {bottom : Pending} (last : bottom ∈ stack.getLast?)
    (tree : Tree) : ∃ left right, close stack tree = .node bottom.op left right := by
  induction stack generalizing tree with
  | nil => cases last
  | cons top stack ih =>
      cases stack with
      | nil =>
          cases last
          exact ⟨top.left, tree, rfl⟩
      | cons next stack => exact ih (by simpa using last) _

namespace Chain

def concat (chain : Chain) (link : Link) : Chain := { chain with rest := chain.rest ++ [link] }

theorem extend_concat (stack : List Pending) (tree : Tree) (links : List Link) (link : Link) :
    let read := extend stack tree links
    let settled := Pending.settle link.op.rank read.1 read.2
    extend stack tree (links ++ [link]) = (⟨settled.2, link.op⟩ :: settled.1, .literal link.l) := by
  induction links generalizing stack tree with
  | nil => rfl
  | cons first links ih => exact ih _ _

theorem text_split {chain : Chain} {front back : Text} {op : Operator}
    (split : chain.text = front ++ op.symbol :: back) :
    ∃ left right : Chain, front = left.text ∧ back = right.text := by
  obtain ⟨first, rest⟩ := chain
  have outside (l : Literal) : op.symbol ∉ l.run := fun member =>
    Decimal.symbol_not_numeral op (l.literal.numeral _ member)
  induction rest generalizing first front with
  | nil =>
      have member : op.symbol ∈ first.run ++ [] := by
        rw [show first.run ++ [] = front ++ op.symbol :: back from split]
        simp
      exact absurd (by simpa using member) (outside first)
  | cons link links ih =>
      have later : first.run ++ link.op.symbol :: (⟨link.l, links⟩ : Chain).text =
          front ++ op.symbol :: back := split
      rcases List.append_eq_append_iff.mp later with ⟨middle, before, after⟩ | ⟨middle, before, after⟩
      · cases middle with
        | nil =>
            obtain ⟨_, rfl⟩ := List.cons.inj after
            exact ⟨⟨first, []⟩, ⟨link.l, links⟩, before, rfl⟩
        | cons c middle =>
            obtain ⟨rfl, inner⟩ := List.cons.inj after
            obtain ⟨left, right, rfl, rfl⟩ := ih link.l inner
            exact ⟨⟨first, ⟨link.op, left.first⟩ :: left.rest⟩, right, before, rfl⟩
      · cases middle with
        | nil =>
            obtain ⟨_, rfl⟩ := List.cons.inj after
            exact ⟨⟨first, []⟩, ⟨link.l, links⟩, by simpa [text] using before.symm, rfl⟩
        | cons c middle =>
            obtain ⟨rfl, _⟩ := List.cons.inj after
            exact absurd (by simp [before]) (outside first)

theorem not_lacks {chain : Chain} {front back : Text} {op : Operator}
    (split : chain.text = front ++ op.symbol :: back) (more : Text) : ¬ Lacks front (back ++ more) := by
  obtain ⟨left, right, rfl, rfl⟩ := text_split split
  rintro (before | after)
  · have last := List.getLast?_eq_some_getLast left.text_ne_nil
    exact Decimal.numeral_not_symbol (left.numeral_end _ last) (before _ last)
  · have head := List.head?_eq_some_head right.text_ne_nil
    have first : (right.text ++ more).head? = _ :=
      (List.head?_append_of_ne_nil _ right.text_ne_nil).trans head
    exact Decimal.numeral_not_symbol (right.numeral_start _ head) (after _ first)

theorem wanting_concat_iff (chain : Chain) (last op : Operator) :
    Wanting (chain.text ++ [last.symbol]) op ↔ op = last := by
  constructor
  · rintro ⟨front, back, split, lacks⟩
    cases back using List.reverseRecOn with
    | nil => exact Operator.symbol_injective (by simpa using (List.append_inj' split rfl).2.symm)
    | append_singleton back c =>
        have inner : chain.text ++ [last.symbol] = (front ++ op.symbol :: back) ++ [c] := by
          rw [split]
          simp
        exact absurd lacks (not_lacks (List.append_inj' inner rfl).1 [c])
  · rintro rfl
    exact ⟨chain.text, [], rfl, Or.inr (by simp)⟩

theorem scan_concat (chain : Chain) (op : Operator) :
    Token.scan (chain.text ++ [op.symbol]) = chain.tokens ++ [.operator op] := by
  rw [Token.scan_append _ _ chain.known_text (Or.inr (by simpa using Decimal.symbol_not_numeral op)),
    chain.scan_text, Token.scan_symbol]
  rfl

theorem outcome_concat {α : Type} [Arithmetic α] (chain : Chain) (link : Link) :
    ∃ op left right, (chain.concat link).tree = .node op left right ∧
      (evaluate (chain.text ++ [link.op.symbol]) : Evaluation α).outcome =
        .error (.missingOperand op) := by
  let read := extend [] (.literal chain.first) chain.rest
  let settled := Pending.settle link.op.rank read.1 read.2
  let stack : List Pending := ⟨settled.2, link.op⟩ :: settled.1
  have grown : extend [] (.literal chain.first) (chain.rest ++ [link]) = (stack, .literal link.l) :=
    extend_concat [] _ chain.rest link
  obtain ⟨bottom, last⟩ : ∃ bottom, bottom ∈ stack.getLast? :=
    ⟨_, List.getLast?_eq_some_getLast (List.cons_ne_nil _ _)⟩
  obtain ⟨left, right, root⟩ := Pending.root_close last (.literal link.l)
  -- the operator read last makes as many operators as there are operands
  have short : (Machine.awaiting stack : Machine α).operands.length =
      (Machine.awaiting stack : Machine α).operators.length := by
    simp [Machine.awaiting]
  have deepest : bottom.op ∈ (Machine.awaiting stack : Machine α).operators.getLast? := by
    simpa [Machine.awaiting] using ⟨bottom, last, rfl⟩
  obtain ⟨steps, failed⟩ := Machine.settle_short short deepest
  refine ⟨bottom.op, left, right, ?_, outcome_error.mpr ⟨⟨.missingOperand bottom.op, steps⟩, ?_, rfl⟩⟩
  · simpa only [tree, concat, grown] using root
  · have fed : (chain.tokens ++ [Token.operator link.op]).foldlM Machine.feed ({} : Machine α) =
        .ok (Machine.awaiting stack) := by
      rw [List.foldlM_append, Machine.feed_tokens]
      change Machine.feed (Machine.holding read.1 read.2) _ >>= pure = _
      rw [Machine.feed_operator]
      rfl
    rw [scan_concat, Machine.run, fed]
    change Machine.settle 0 _ _ >>= _ = _
    rw [failed]
    rfl

end Chain

/-- An operator is named for a missing operand only if it lacks one where it stands, or waits for a
tighter one that does. If the text is a chain that breaks off after an operator, the one named is the
root of the tree that the chain would have had, and it lacks an operand only if it is the last one. -/
theorem missing_operand_laws {α : Type} [Arithmetic α] (text : Text) :
    (∀ op, (evaluate text : Evaluation α).outcome = .error (.missingOperand op) →
      Blamed text op) ∧
    ∀ (chain : Chain) (last : Operator) (l : Literal), text = chain.text ++ [last.symbol] →
      ∃ op left right, (chain.concat ⟨last, l⟩).tree = .node op left right ∧
        (evaluate text : Evaluation α).outcome = .error (.missingOperand op) ∧
        (Wanting text op ↔ op = last) := by
  constructor
  · intro op failed
    obtain ⟨failure, ran, named⟩ := outcome_error.mp failed
    exact (Machine.blamesOnly (α := α) text).run failure op ran named
  · rintro chain last l rfl
    obtain ⟨op, left, right, root, failed⟩ := chain.outcome_concat (α := α) ⟨last, l⟩
    exact ⟨op, left, right, root, failed, chain.wanting_concat_iff last op⟩

/-- In `1+2*` the product lacks an operand, and the sum is named, which has both. -/
theorem sum_named_for_product :
    Lexical "1+2*".toList ∧
      (evaluate "1+2*".toList : Evaluation Float).outcome = .error (.missingOperand .add) ∧
      ¬ Wanting "1+2*".toList .add := by
  refine ⟨⟨?_, ?_⟩, by rfl, ?_⟩
  · have known : ∀ c ∈ "1+2*".toList, Decimal.isNumeralChar c ∨ Operator.isSymbol c :=
      List.all_iff_forall_prop.mp (by decide)
    exact known
  · intro front run back split maximal
    have part : run ⊆ "1+2*".toList := by
      rw [split]
      simp
    obtain ⟨c, member⟩ := List.exists_mem_of_ne_nil run maximal.nonempty
    have digits : ∀ c ∈ "1+2*".toList, Decimal.isNumeralChar c → c.isDigit ∧ c ≠ '.' :=
      List.all_iff_forall_prop.mp (by decide)
    refine ⟨maximal.numeral, ⟨c, member, (digits c (part member) (maximal.numeral c member)).1⟩, ?_⟩
    rw [List.count_eq_zero.mpr fun point =>
      (digits '.' (part point) (maximal.numeral '.' point)).2 rfl]
    exact Nat.zero_le 1
  · rintro ⟨front, back, split, lacks⟩
    change ['1', '+', '2', '*'] = front ++ '+' :: back at split
    rcases front with _ | ⟨c, _ | ⟨d, front⟩⟩
    · exact absurd (List.cons.inj split).1 (by decide)
    · obtain ⟨rfl, rest⟩ := List.cons.inj split
      obtain ⟨_, rfl⟩ := List.cons.inj rest
      rcases lacks with before | after
      · exact absurd (before '1' rfl) (by decide)
      · exact absurd (after '2' rfl) (by decide)
    · have rest : ['2', '*'] = front ++ '+' :: back :=
        (List.cons.inj (List.cons.inj split).2).2
      have member : '+' ∈ ['2', '*'] := by simp [rest]
      exact absurd member (by decide)

end Calculator
