import Calculator.FloatArithmetic
import Calculator.FullScreen.MainScreen
import Calculator.LineMode
import Calculator.Proofs.EqualsFailure
import Calculator.Proofs.StackedOperators

/-! What the steps of an evaluation say, whether it succeeds or fails.

As long as no operator lacks an operand, the operands on the stack are the values of the stretches
that were read, and a step applies an operator to the values of the two stretches next to it. An
operator that lacks an operand takes one that belongs to a looser one, and what it is applied to says
nothing about the text. -/

namespace Calculator

variable {α : Type} [Arithmetic α]

/-- The step applies an operator of the text to the values of the stretches right before and right
after it. -/
def Genuine (text : Text) (step : Step α) : Prop :=
  ∃ front back : Text, ∃ left right : Chain,
    text = front ++ left.text ++ step.op.symbol :: (right.text ++ back) ∧
      (∀ c ∈ front.getLast?, ¬ Decimal.isNumeralChar c) ∧
      (∀ c ∈ back.head?, ¬ Decimal.isNumeralChar c) ∧
      (evaluate left.text : Evaluation α).outcome = .ok step.left ∧
      (evaluate right.text : Evaluation α).outcome = .ok step.right ∧
      step.result = Arithmetic.apply step.op step.left step.right

omit [Arithmetic α] in
/-- The operator of the step stands after a looser one that waits, and one of those that it waits for
lacks an operand. -/
def Misled (text : Text) (step : Step α) : Prop :=
  ∃ front inner back : Text, ∃ op : Operator, text = front ++ op.symbol :: (inner ++ back) ∧
    Ragged front op inner back ∧ step.op.symbol ∈ inner

def Told (text : Text) (step : Step α) : Prop := Genuine text step ∨ Misled text step

namespace Tree

def chain : Tree → Chain
  | literal l => ⟨l, []⟩
  | node op left right =>
      ⟨left.chain.first, left.chain.rest ++ ⟨op, right.chain.first⟩ :: right.chain.rest⟩

theorem text_chain (tree : Tree) : tree.chain.text = tree.text := by
  induction tree with
  | literal l => simp [chain, Chain.text, text]
  | node op left right ihl ihr =>
      rw [text, ← ihl, ← ihr]
      simp [chain, Chain.text, Link.text]

theorem outcome_chain {tree : Tree} (grouped : tree.Grouped) :
    (evaluate tree.chain.text : Evaluation α).outcome = .ok tree.value := by
  have same : tree.chain.tree = tree :=
    tree.chain.parses_tree.unique ⟨tree.text_chain.symm, grouped⟩
  rw [evaluate_text, same]

end Tree

theorem genuine_of_node {front back : Text} {op : Operator} {left right : Tree}
    (before : ∀ c ∈ front.getLast?, Operator.isSymbol c)
    (after : ∀ c ∈ back.head?, ¬ Decimal.isNumeralChar c)
    (first : left.Grouped) (second : right.Grouped) :
    Genuine (front ++ left.text ++ op.symbol :: (right.text ++ back))
      ⟨op, left.value (α := α), right.value, Arithmetic.apply op left.value right.value⟩ :=
  ⟨front, back, left.chain, right.chain, by rw [left.text_chain, right.text_chain],
    fun c last inside => Decimal.numeral_not_symbol inside (before c last), after,
    Tree.outcome_chain first, Tree.outcome_chain second, rfl⟩

omit [Arithmetic α] in
theorem misled_of_hampered {read rest : Text} {op : Operator} {step : Step α}
    (waits : Waits read step.op) (hampered : Hampered read rest op)
    (looser : op.precedence < step.op.precedence) : Misled (read ++ rest) step := by
  obtain ⟨front, tail, split, ragged⟩ := hampered
  exact ⟨front, tail, rest, op, by simp [split], ragged, waits.mem_tail split looser⟩

namespace Pending

def opening : List Pending → Text
  | [] => []
  | top :: stack => opening stack ++ top.left.text ++ [top.op.symbol]

theorem opening_settle (rank : Nat) (stack : List Pending) (tree : Tree) :
    opening (settle rank stack tree).1 ++ (settle rank stack tree).2.text =
      opening stack ++ tree.text := by
  induction stack generalizing tree with
  | nil => rfl
  | cons top stack ih =>
      by_cases tight : rank ≤ top.op.rank
      · simp only [settle, tight, if_true, ih]
        simp [opening, Tree.text]
      · simp only [settle, tight, if_false]

theorem settle_suffix (rank : Nat) (stack : List Pending) (tree : Tree) :
    (settle rank stack tree).1 <:+ stack := by
  induction stack generalizing tree with
  | nil => exact List.suffix_rfl
  | cons top stack ih =>
      by_cases tight : rank ≤ top.op.rank
      · simp only [settle, tight, if_true]
        exact (ih _).trans (List.suffix_cons top stack)
      · simp only [settle, tight, if_false]
        exact List.suffix_rfl

theorem symbol_opening {front : Text} (before : ∀ c ∈ front.getLast?, Operator.isSymbol c)
    (stack : List Pending) : ∀ c ∈ (front ++ opening stack).getLast?, Operator.isSymbol c := by
  cases stack with
  | nil => simpa [opening] using before
  | cons top stack =>
      rw [opening, ← List.append_assoc, List.getLast?_concat]
      rintro _ ⟨⟩
      exact top.op.isSymbol_symbol

end Pending

/-- The computation ends in such a value, or fails with steps that are told truly. -/
def Keeps {β : Type} (text : Text) (p : β → Prop) : Except (Failure α) β → Prop
  | .ok b => p b
  | .error failure => ∀ step ∈ failure.steps, Told text step

theorem Keeps.bind {β γ : Type} {text : Text} {p : β → Prop} {q : γ → Prop}
    {first : Except (Failure α) β} {next : β → Except (Failure α) γ} (kept : Keeps text p first)
    (continued : ∀ b, p b → Keeps text q (next b)) : Keeps text q (first >>= next) := by
  cases first with
  | error failure => exact kept
  | ok b => exact continued b kept

theorem Keeps.mono {β : Type} {text : Text} {p q : β → Prop} {result : Except (Failure α) β}
    (kept : Keeps text p result) (weaker : ∀ b, p b → q b) : Keeps text q result := by
  cases result with
  | error failure => exact kept
  | ok b => exact weaker b kept

namespace Machine

/-- What the stacks may be once operands are short: no more operands than operators, and no step that
is not told. -/
structure Broken (text : Text) (m : Machine α) : Prop where
  few : m.operands.length ≤ m.operators.length
  told : ∀ step ∈ m.steps, Told text step

/-- Where operands are short, an operator can only be applied above one that is hampered. -/
theorem settle_broken {read rest : Text} {rank : Nat} {ops : List Operator} {m : Machine α}
    (stacked : Stacked read ops) (few : m.operands.length ≤ ops.length)
    (hampered : ∀ op ∈ ops.tail, Hampered read rest op)
    (told : ∀ step ∈ m.steps, Told (read ++ rest) step) :
    Keeps (read ++ rest) (Broken (read ++ rest)) (settle rank ops m) := by
  induction ops generalizing m with
  | nil => exact ⟨few, told⟩
  | cons op lower ih =>
      rw [settle]
      by_cases tight : rank ≤ op.precedence
      · rw [if_pos tight]
        cases applied : m.reduce op with
        | error failure =>
            obtain ⟨rfl, _⟩ := reduce_short applied
            exact told
        | ok middle =>
            obtain ⟨left, right, others, operands, rfl⟩ := reduce_ok applied
            rw [operands] at few
            cases lower with
            | nil => simp at few
            | cons next lower =>
                -- the operator below is hampered, so this one may be given operands of another
                have looser := (List.pairwise_cons.mp stacked.falls).1 next List.mem_cons_self
                have misled : Misled (read ++ rest)
                    (⟨op, left, right, Arithmetic.apply op left right⟩ : Step α) :=
                  misled_of_hampered (stacked.waits op List.mem_cons_self)
                    (hampered next List.mem_cons_self) looser
                refine ih (stacked.suffix (List.suffix_cons _ _)) (by simpa using few)
                  (fun other member => hampered other (List.mem_of_mem_tail member)) ?_
                exact List.forall_mem_cons.mpr ⟨Or.inr misled, told⟩
      · rw [if_neg tight]
        exact ⟨few, told⟩

/-- How the stacks lie. The text in front has left some operators and operands at their bottom; on
those are the operators that are pending since then, with their left operands. -/
structure Layout (α : Type) where
  front : Text
  base : List Operator
  junk : List α
  stack : List Pending

namespace Layout

def operators (layout : Layout α) : List Operator := layout.stack.map (·.op) ++ layout.base

def operands (layout : Layout α) : List α := layout.stack.map (·.left.value) ++ layout.junk

def opened (layout : Layout α) : Text := layout.front ++ Pending.opening layout.stack

def settled (layout : Layout α) (rank : Nat) (tree : Tree) : Layout α :=
  { layout with stack := (Pending.settle rank layout.stack tree).1 }

/-- At the bottom lies nothing, or there are fewer operands than operators, and all but the uppermost
of the operators are hampered. -/
structure Sound (read rest : Text) (layout : Layout α) : Prop where
  before : ∀ c ∈ layout.front.getLast?, Operator.isSymbol c
  stacked : Stacked read layout.operators
  sunk : layout.base = [] ∧ layout.junk = [] ∨
    layout.junk.length < layout.base.length ∧ ∀ op ∈ layout.base.tail, Hampered read rest op

variable {layout : Layout α} {read rest : Text}

omit [Arithmetic α] in
theorem opened_settled (rank : Nat) (tree : Tree) :
    (layout.settled rank tree).opened ++ (Pending.settle rank layout.stack tree).2.text =
      layout.opened ++ tree.text := by
  rw [opened, opened, List.append_assoc, List.append_assoc]
  exact congrArg _ (Pending.opening_settle rank layout.stack tree)

omit [Arithmetic α] in
theorem Sound.settled (sound : layout.Sound read rest) (rank : Nat) (tree : Tree) :
    (layout.settled rank tree).Sound read rest := by
  have lower := (Pending.settle_suffix rank layout.stack tree).map (·.op)
  obtain ⟨gone, kept⟩ := lower
  refine ⟨sound.before, sound.stacked.suffix ⟨gone, ?_⟩, sound.sunk⟩
  rw [operators, operators, ← kept, List.append_assoc]
  rfl

omit [Arithmetic α] in
theorem Sound.sunk_append {added : Text} (sound : layout.Sound read (added ++ rest))
    (tighter : ∀ op ∈ layout.operators, Tighter op added) :
    layout.base = [] ∧ layout.junk = [] ∨ layout.junk.length < layout.base.length ∧
      ∀ op ∈ layout.base.tail, Hampered (read ++ added) rest op := by
  refine sound.sunk.imp_right (And.imp_right fun hampered op member => ?_)
  have stacked := List.mem_append_right (layout.stack.map (·.op)) (List.mem_of_mem_tail member)
  exact (hampered op member).append (tighter op stacked)

end Layout

theorem settle_pending {text rest : Text} {rank level : Nat} {layout : Layout α} {tree : Tree}
    {m : Machine α} (split : text = layout.opened ++ tree.text ++ rest)
    (before : ∀ c ∈ layout.front.getLast?, Operator.isSymbol c)
    (after : ∀ c ∈ rest.head?, ¬ Decimal.isNumeralChar c)
    (nested : Pending.Nested layout.stack level) (grouped : tree.Grouped) (binds : tree.Binds level)
    (operands : m.operands = tree.value :: layout.operands)
    (told : ∀ step ∈ m.steps, Told text step) :
    ∃ next : Machine α, (∀ step ∈ next.steps, Told text step) ∧
      next.operands = (Pending.settle rank layout.stack tree).2.value ::
        (layout.settled rank tree).operands ∧
      settle rank layout.operators m = settle rank (layout.settled rank tree).operators next := by
  obtain ⟨front, base, junk, stack⟩ := layout
  induction stack generalizing tree level m with
  | nil => exact ⟨m, told, operands, rfl⟩
  | cons top stack ih =>
      obtain ⟨looser, left, tight, outer⟩ := nested
      by_cases fills : rank ≤ top.op.rank
      · have right : tree.Binds (top.op.rank + 1) := Tree.binds_mono binds looser
        let step : Step α := ⟨top.op, top.left.value, tree.value,
          Arithmetic.apply top.op top.left.value tree.value⟩
        have genuine : Genuine text step := by
          -- the step applies the operator on top to the stretches on its two sides
          have stretch : Genuine (front ++ Pending.opening stack ++ top.left.text ++
              top.op.symbol :: (tree.text ++ rest)) step :=
            genuine_of_node (Pending.symbol_opening before stack) after left grouped
          simpa [split, Layout.opened, Pending.opening] using stretch
        have moved : text = (⟨front, base, junk, stack⟩ : Layout α).opened ++
            (Tree.node top.op top.left tree).text ++ rest := by
          simp [split, Layout.opened, Pending.opening, Tree.text]
        let middle : Machine α := { m with
          operands := (Tree.node top.op top.left tree).value ::
            (⟨front, base, junk, stack⟩ : Layout α).operands
          steps := step :: m.steps }
        have applied : m.reduce top.op = .ok middle := by
          simp [reduce, operands, Layout.operands, middle, step, Tree.value]
        have whole : (Tree.node top.op top.left tree).Grouped := ⟨left, grouped, tight, right⟩
        have longer : ∀ other ∈ step :: m.steps, Told text other :=
          List.forall_mem_cons.mpr ⟨Or.inl genuine, told⟩
        obtain ⟨next, kept, held, same⟩ :=
          ih (m := middle) whole (Tree.binds_node tight right) longer moved before outer rfl
        have deeper : Pending.settle rank (top :: stack) tree =
            Pending.settle rank stack (.node top.op top.left tree) := by
          simp only [Pending.settle, fills, if_true]
        refine ⟨next, kept, by simpa only [Layout.settled, deeper] using held, ?_⟩
        change settle rank (top.op :: _) m = _
        rw [settle, top.op.precedence_eq_rank, if_pos fills, applied]
        change settle rank (⟨front, base, junk, stack⟩ : Layout α).operators middle = _
        rw [same, Layout.settled, Layout.settled, deeper]
      · refine ⟨m, told, ?_, ?_⟩
        · simpa only [Layout.settled, Pending.settle, fills, if_false] using operands
        · simp only [Layout.settled, Pending.settle, fills, if_false]

/-- A state in which an operand has to come. -/
structure Awaits (text read rest : Text) (m : Machine α) : Prop where
  split : text = read ++ rest
  told : ∀ step ∈ m.steps, Told text step
  laid : ∃ layout : Layout α, layout.Sound read rest ∧ read = layout.opened ∧
    Pending.Nested layout.stack 4 ∧ m.operands = layout.operands ∧ m.operators = layout.operators

/-- A state with the value of a tree on top, after which an operator of this rank may be stacked. -/
structure Bears (rank : Nat) (text read rest : Text) (m : Machine α) : Prop where
  split : text = read ++ rest
  told : ∀ step ∈ m.steps, Told text step
  laid : ∃ (layout : Layout α) (tree : Tree), layout.Sound read rest ∧
    read = layout.opened ++ tree.text ∧ Pending.Nested layout.stack rank ∧ tree.Grouped ∧
    tree.Binds rank ∧ m.operands = tree.value :: layout.operands ∧ m.operators = layout.operators

/-- A state in which operands are short and every operator is hampered. -/
structure Short (text read rest : Text) (m : Machine α) : Prop where
  told : ∀ step ∈ m.steps, Told text step
  few : m.operands.length ≤ m.operators.length
  hampered : ∀ op ∈ m.operators, Hampered read rest op

theorem settle_below {rank : Nat} {op : Operator} {lower : List Operator} {m next : Machine α}
    (tight : rank ≤ op.precedence) (settled : settle rank (op :: lower) m = .ok next) :
    next.operators <:+ lower := by
  rw [settle, if_pos tight] at settled
  obtain ⟨middle, _, remaining⟩ := bind_ok.mp settled
  exact (settle_suffix remaining).1

theorem settle_base {text read rest : Text} {rank : Nat} {layout : Layout α} {tree : Tree}
    {m : Machine α} (split : text = read ++ rest) (sound : layout.Sound read rest)
    (opened : read = layout.opened ++ tree.text) (nested : Pending.Nested layout.stack rank)
    (grouped : tree.Grouped) (binds : tree.Binds rank)
    (operands : m.operands = tree.value :: layout.operands) (told : ∀ step ∈ m.steps, Told text step) :
    Keeps text (fun next => Bears rank text read rest next ∨ Short text read rest next)
      (settle rank layout.operators m) := by
  have stays : Bears rank text read rest { m with operators := layout.operators } :=
    ⟨split, told, layout, tree, sound, opened, nested, grouped, binds, operands, rfl⟩
  obtain ⟨front, base, junk, stack⟩ := layout
  cases stack with
  | cons top stack =>
      have kept : settle rank (⟨front, base, junk, top :: stack⟩ : Layout α).operators m =
          .ok { m with operators := (⟨front, base, junk, top :: stack⟩ : Layout α).operators } := by
        change settle rank (top.op :: _) m = _
        rw [settle, top.op.precedence_eq_rank, if_neg (Nat.not_le_of_lt nested.1)]
        rfl
      rw [kept]
      exact Or.inl stays
  | nil =>
      cases base with
      | nil => exact Or.inl stays
      | cons op lower =>
          change Keeps text _ (settle rank (op :: lower) m)
          -- only where operands are short does settling reach below the pending operators
          by_cases tight : rank ≤ op.precedence
          · obtain ⟨few, hampered⟩ := sound.sunk.resolve_left fun none => List.cons_ne_nil _ _ none.1
            have short : m.operands.length ≤ (op :: lower).length := by
              rw [operands]
              exact few
            have broken : Keeps text (Broken text) (settle rank (op :: lower) m) :=
              split ▸ settle_broken sound.stacked short hampered (split ▸ told)
            cases done : settle rank (op :: lower) m with
            | error failure => exact (done ▸ broken : Keeps text (Broken text) (.error failure))
            | ok next =>
                have kept : Broken text next := (done ▸ broken : Keeps text (Broken text) (.ok next))
                exact Or.inr ⟨kept.told, kept.few, fun other member =>
                  hampered other ((settle_below tight done).subset member)⟩
          · rw [settle, if_neg tight]
            exact Or.inl stays

theorem settle_bears {text read rest : Text} {rank level : Nat} {m : Machine α} (low : rank ≤ level)
    (bears : Bears level text read rest m) (after : ∀ c ∈ rest.head?, Operator.isSymbol c) :
    Keeps text (fun next => Bears rank text read rest next ∨ Short text read rest next)
      (m.settle rank m.operators) := by
  obtain ⟨layout, tree, sound, opened, nested, grouped, binds, operands, operators⟩ := bears.laid
  obtain ⟨next, told, held, same⟩ := settle_pending (bears.split.trans (by rw [opened])) sound.before
    (fun c first inside => Decimal.numeral_not_symbol inside (after c first)) nested grouped binds
    operands bears.told
  obtain ⟨nested', grouped', binds'⟩ :=
    Pending.settle_nested rank layout.stack level tree low nested grouped binds
  rw [operators, same]
  exact settle_base bears.split (sound.settled rank tree)
    (opened.trans (Layout.opened_settled rank tree).symm) nested' grouped' binds' held told

theorem Awaits.before {text read rest : Text} {m : Machine α} (awaits : Awaits text read rest m) :
    ∀ c ∈ read.getLast?, Operator.isSymbol c := by
  obtain ⟨layout, sound, opened, _⟩ := awaits.laid
  rw [opened]
  exact Pending.symbol_opening sound.before layout.stack

theorem Awaits.stacked {text read rest : Text} {m : Machine α} (awaits : Awaits text read rest m) :
    Stacked read m.operators := by
  obtain ⟨layout, sound, _, _, _, operators⟩ := awaits.laid
  exact operators ▸ sound.stacked

theorem Awaits.few {text read rest : Text} {m : Machine α} (awaits : Awaits text read rest m) :
    m.operands.length ≤ m.operators.length := by
  obtain ⟨⟨front, base, junk, stack⟩, sound, _, _, operands, operators⟩ := awaits.laid
  have bottom : junk.length ≤ base.length := by
    rcases sound.sunk with ⟨_, none⟩ | ⟨few, _⟩
    · exact (congrArg List.length none).trans_le (Nat.zero_le _)
    · exact Nat.le_of_lt few
  simpa [operands, operators, Layout.operands, Layout.operators] using bottom

theorem settle_awaits {text read rest : Text} {m : Machine α} (rank : Nat)
    (awaits : Awaits text read rest m) (after : ∀ c ∈ rest.head?, Operator.isSymbol c) :
    Keeps text (Broken text) (m.settle rank m.operators) := by
  have stacked := awaits.stacked
  refine awaits.split ▸ settle_broken stacked awaits.few ?_ (awaits.split ▸ awaits.told)
  intro op member
  cases ops : m.operators with
  | nil => simp [ops] at member
  | cons top lower =>
      rw [ops] at member stacked
      have looser := (List.pairwise_cons.mp stacked.falls).1 op member
      have waits := stacked.waits op (List.mem_cons_of_mem _ member)
      refine (waits.last_or_hampered awaits.before after).resolve_left ?_
      rintro ⟨first, last⟩
      exact absurd ((stacked.waits top List.mem_cons_self).mem_tail last looser) List.not_mem_nil

section Push

variable {text read rest : Text} {op : Operator} {m : Machine α}

theorem Broken.push (broken : Broken text m) (split : text = read ++ op.symbol :: rest)
    (stacked : Stacked read m.operators)
    (looser : ∀ other ∈ m.operators, other.precedence < op.precedence)
    (hampered : ∀ other ∈ m.operators, Hampered (read ++ [op.symbol]) rest other) :
    Awaits text (read ++ [op.symbol]) rest { m with operators := op :: m.operators } := by
  let layout : Layout α := ⟨read ++ [op.symbol], op :: m.operators, m.operands, []⟩
  have sound : layout.Sound (read ++ [op.symbol]) rest :=
    ⟨by simp [layout], stacked.push looser, Or.inr ⟨Nat.lt_succ_of_le broken.few, hampered⟩⟩
  exact ⟨by simp [split], broken.told, layout, sound, by simp [layout, Layout.opened, Pending.opening],
    trivial, rfl, rfl⟩

theorem Short.push (short : Short text read (op.symbol :: rest) m)
    (split : text = read ++ op.symbol :: rest) (stacked : Stacked read m.operators)
    (looser : ∀ other ∈ m.operators, other.precedence < op.precedence) :
    Awaits text (read ++ [op.symbol]) rest { m with operators := op :: m.operators } :=
  Broken.push ⟨short.few, short.told⟩ split stacked looser fun other member =>
    Hampered.append (short.hampered other member) (tighter_symbol (looser other member))

theorem Bears.push (bears : Bears op.rank text read (op.symbol :: rest) m)
    (looser : ∀ other ∈ m.operators, other.precedence < op.precedence) :
    Awaits text (read ++ [op.symbol]) rest { m with operators := op :: m.operators } := by
  obtain ⟨layout, tree, sound, opened, nested, grouped, binds, operands, operators⟩ := bears.laid
  rw [operators] at looser
  have symbol : layout.Sound read ([op.symbol] ++ rest) := sound
  have sunk := symbol.sunk_append fun other member => tighter_symbol (looser other member)
  let pushed : Layout α := { layout with stack := ⟨tree, op⟩ :: layout.stack }
  have next : pushed.Sound (read ++ [op.symbol]) rest :=
    ⟨sound.before, sound.stacked.push looser, sunk⟩
  refine ⟨by simp [bears.split], bears.told, pushed, next, ?_,
    ⟨Chain.rank_lt op, grouped, binds, nested⟩, operands, ?_⟩
  · simp [opened, pushed, Layout.opened, Pending.opening]
  · rw [operators]
    rfl

end Push

theorem Awaits.operator {text read rest : Text} {m next : Machine α} {op : Operator}
    (awaits : Awaits text read (op.symbol :: rest) m) (fed : m.feed (.operator op) = .ok next) :
    Awaits text (read ++ [op.symbol]) rest next := by
  obtain ⟨settled, done, rfl, _, stacked, looser⟩ := stacked_of_feed awaits.stacked fed
  have kept := settle_awaits op.precedence awaits (by simp)
  rw [done] at kept
  refine Broken.push kept awaits.split stacked looser fun other member => ?_
  exact (stacked.waits other member).hampered (looser other member) (Or.inl awaits.before)

theorem Bears.operator {text read rest : Text} {m next : Machine α} {op : Operator}
    (bears : Bears 4 text read (op.symbol :: rest) m) (fed : m.feed (.operator op) = .ok next) :
    Awaits text (read ++ [op.symbol]) rest next := by
  obtain ⟨layout, tree, sound, _, _, _, _, _, operators⟩ := bears.laid
  obtain ⟨settled, done, rfl, _, stacked, looser⟩ := stacked_of_feed (operators ▸ sound.stacked) fed
  have kept := settle_bears (Nat.le_of_lt (Chain.rank_lt op)) bears (by simp)
  rw [← op.precedence_eq_rank, done, op.precedence_eq_rank] at kept
  rcases kept with holding | short
  · exact holding.push looser
  · exact short.push bears.split stacked looser

theorem settle_told {text read rest : Text} {rank : Nat} {m : Machine α} (low : rank ≤ 4)
    (state : Awaits text read rest m ∨ Bears 4 text read rest m)
    (after : ∀ c ∈ rest.head?, Operator.isSymbol c) :
    Keeps text (fun next => ∀ step ∈ next.steps, Told text step) (m.settle rank m.operators) := by
  rcases state with awaits | bears
  · exact (settle_awaits rank awaits after).mono fun next broken => broken.told
  · exact (settle_bears low bears after).mono fun next kept => kept.elim (·.told) (·.told)

theorem Awaits.literal {text read rest : Text} {m : Machine α} (l : Literal)
    (awaits : Awaits text read (l.run ++ rest) m) : Bears 4 text (read ++ l.run) rest
      { m with operands := Arithmetic.ofDecimal l.decimal :: m.operands } := by
  obtain ⟨layout, sound, opened, nested, operands, operators⟩ := awaits.laid
  have inside := l.literal.numeral
  have next : layout.Sound (read ++ l.run) rest :=
    ⟨sound.before, sound.stacked.append_run inside, sound.sunk_append fun op _ => tighter_run op inside⟩
  exact ⟨by simp [awaits.split], awaits.told, layout, .literal l, next, by rw [opened, Tree.text],
    nested, trivial, Tree.binds_literal 4 l, by rw [operands, Tree.value], operators⟩

def tells (text : Text) : Invariant (α := α) text
    (Keeps text fun result : α × List (Step α) => ∀ step ∈ result.2, Told text step) where
  Awaits := Awaits text
  Holds := Bears 4 text
  start := ⟨rfl, List.forall_mem_nil _, ⟨[], [], [], []⟩,
    ⟨by simp, .nil [], Or.inl ⟨rfl, rfl⟩⟩, rfl, trivial, rfl, rfl⟩
  literal l awaits _ := awaits.literal l
  operator op state fed := state.elim (·.operator fed) (·.operator fed)
  stop := by
    intro read rest m failure op state failed
    have kept := settle_told (Nat.le_of_lt (Chain.rank_lt op)) state (by simp)
    rw [← op.precedence_eq_rank] at kept
    rcases bind_error.mp failed with early | ⟨settled, _, late⟩
    · exact (early ▸ kept : Keeps text _ (.error failure))
    · cases late
  fault state _ := state.elim (·.told) (·.told)
  finish := by
    intro read m state
    refine (settle_told (Nat.zero_le 4) state (by simp)).bind fun last told => ?_
    split <;> exact told

end Machine

theorem steps_told (text : Text) : ∀ step ∈ (evaluate text : Evaluation α).steps, Told text step := by
  have kept := (Machine.tells (α := α) text).run
  unfold evaluate
  cases ran : Machine.run (α := α) (Token.scan text) with
  | error failure =>
      rw [ran] at kept
      exact fun step member => kept step (List.mem_reverse.mp member)
  | ok result =>
      rw [ran] at kept
      exact fun step member => kept step (List.mem_reverse.mp member)

theorem Session.lastSteps_told (keys : List Key) : ∀ step ∈ (after keys).lastSteps, ∃ i,
    (equalsSinceClear keys).getLast? = some i ∧ Told (after (keys.take i)).buffer step := by
  rw [lastSteps_after]
  cases pressed : (equalsSinceClear keys).getLast? with
  | none => exact List.forall_mem_nil _
  | some i => exact fun step member => ⟨i, rfl, steps_told _ step member⟩

theorem LineMode.detailLines_step (s : Session) : ∀ line ∈ detailLines s, ∃ n, ∃ step ∈ s.lastSteps,
    line = "    Step ".toList ++ Text.ofNat n ++ ": ".toList ++ step.equation ++ newline := by
  intro line member
  obtain ⟨told, listed, rfl⟩ := List.mem_map.mp member
  obtain ⟨i, bound, rfl⟩ := List.mem_mapIdx.mp listed
  exact ⟨i + 1, s.lastSteps[i], List.getElem_mem bound, by simp⟩

theorem FullScreen.MainScreen.detailLines_step (steps : List (Step Float)) (some : steps ≠ []) :
    ∀ line ∈ detailLines steps, ∃ n, ∃ step ∈ steps,
      line.content = "Step ".toList ++ Text.ofNat n ++ ": ".toList ++ step.equation := by
  intro line member
  simp only [detailLines, List.isEmpty_iff, some, if_false] at member
  obtain ⟨told, listed, rfl⟩ := List.mem_map.mp member
  obtain ⟨i, bound, rfl⟩ := List.mem_mapIdx.mp listed
  exact ⟨i + 1, steps[i], List.getElem_mem bound, rfl⟩

/-- Whether an evaluation succeeds or fails, its steps are genuine, but for those that a looser
operator waits for together with one that lacks an operand. A session keeps the steps of its last
equals press, and the details show what it keeps. -/
theorem steps_laws (text : Text) (trace : Trace α) (keys : List Key) :
    (∀ step ∈ (evaluate text : Evaluation α).steps, Genuine text step ∨ Misled text step) ∧
    (∃ added, (trace.evaluate text).1.steps = trace.steps ++ added ∧
      ∀ step ∈ added, Genuine text step ∨ Misled text step) ∧
    (∀ step ∈ (Session.after keys).lastSteps, ∃ i,
      (Session.equalsSinceClear keys).getLast? = some i ∧
        (Genuine (Session.after (keys.take i)).buffer step ∨
          Misled (Session.after (keys.take i)).buffer step)) ∧
    (∀ line ∈ LineMode.detailLines (Session.after keys), ∃ n, ∃ step ∈ (Session.after keys).lastSteps,
      line = "    Step ".toList ++ Text.ofNat n ++ ": ".toList ++ step.equation ++
        LineMode.newline) ∧
    ((Session.after keys).lastSteps ≠ [] →
      ∀ line ∈ FullScreen.MainScreen.detailLines (Session.after keys).lastSteps,
        ∃ n, ∃ step ∈ (Session.after keys).lastSteps,
          line.content = "Step ".toList ++ Text.ofNat n ++ ": ".toList ++ step.equation) := by
  refine ⟨steps_told text, ⟨_, rfl, fun step member => ?_⟩, Session.lastSteps_told keys,
    LineMode.detailLines_step _, FullScreen.MainScreen.detailLines_step _⟩
  cases detailed : trace.detailed with
  | false => simp [detailed] at member
  | true => exact steps_told text step (by simpa [detailed] using member)

/-- In `1+2*` the product lacks an operand, and takes that of the sum. -/
theorem product_takes_operand_of_sum :
    let step : Step Float := ⟨.mul, Decimal.toFloat ⟨1, 0⟩, Decimal.toFloat ⟨2, 0⟩,
      applyFloat .mul (Decimal.toFloat ⟨1, 0⟩) (Decimal.toFloat ⟨2, 0⟩)⟩
    (evaluate "1+2*".toList : Evaluation Float).steps = [step] ∧ ¬ Genuine "1+2*".toList step := by
  refine ⟨rfl, ?_⟩
  rintro ⟨front, back, left, right, split, _⟩
  change ['1', '+', '2'] ++ ['*'] = front ++ left.text ++ '*' :: (right.text ++ back) at split
  have some : right.text ++ back ≠ [] := List.append_ne_nil_of_left_ne_nil right.text_ne_nil _
  generalize right.text ++ back = after at split some
  cases after using List.reverseRecOn with
  | nil => exact some rfl
  | append_singleton after last =>
      -- the sign would stand before the last character
      have inner : ['1', '+', '2'] ++ ['*'] = (front ++ left.text ++ '*' :: after) ++ [last] := by
        rw [split]
        simp
      have member : '*' ∈ ['1', '+', '2'] := by
        rw [(List.append_inj' inner rfl).1]
        simp
      exact absurd member (by decide)

end Calculator
