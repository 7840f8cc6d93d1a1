import Mathlib.Data.List.Induction
import Calculator.Proofs.Acceptance

/-! The operators that wait on the stack, and where they stand in the text.

What is stacked has been read, and nothing that was read after it binds as loosely. An operator that
lacks an operand is stacked all the same: the count of operands is short from there on, for every
operator that waits while it is read. -/

namespace Calculator

@[simp] theorem Operator.isSymbol_symbol (op : Operator) : isSymbol op.symbol :=
  isSymbol_iff.mpr ⟨op, rfl⟩

theorem Chain.text_ne_nil (chain : Chain) : chain.text ≠ [] :=
  List.append_ne_nil_of_left_ne_nil chain.first.literal.nonempty _

/-- An operator between these texts lacks an operand: on one of its sides the text ends, or another
operator stands there. -/
def Lacks (front back : Text) : Prop :=
  (∀ c ∈ front.getLast?, Operator.isSymbol c) ∨ ∀ c ∈ back.head?, Operator.isSymbol c

def Tighter (op : Operator) (text : Text) : Prop :=
  ∀ other : Operator, other.symbol ∈ text → op.rank < other.rank

/-- In `front ++ op.symbol :: inner ++ back` the operator has to wait for tighter ones, and one of
those lacks an operand. -/
structure Ragged (front : Text) (op : Operator) (inner back : Text) : Prop where
  tighter : Tighter op inner
  lacking : ∃ before after, ∃ other : Operator, inner = before ++ other.symbol :: after ∧
    Lacks (front ++ op.symbol :: before) (after ++ back)

/-- The operator has been read, and since then only tighter ones. -/
def Waits (read : Text) (op : Operator) : Prop :=
  ∃ front tail, read = front ++ op.symbol :: tail ∧ Tighter op tail

/-- The operator waits, and one that was read since then lacks an operand. -/
def Hampered (read rest : Text) (op : Operator) : Prop :=
  ∃ front tail, read = front ++ op.symbol :: tail ∧ Ragged front op tail rest

structure Stacked (read : Text) (ops : List Operator) : Prop where
  waits : ∀ op ∈ ops, Waits read op
  falls : ops.Pairwise fun above op => op.precedence < above.precedence

theorem tighter_append {op : Operator} {front back : Text} (first : Tighter op front)
    (second : Tighter op back) : Tighter op (front ++ back) := by
  intro other member
  rcases List.mem_append.mp member with inside | inside
  · exact first other inside
  · exact second other inside

theorem tighter_run (op : Operator) {run : Text} (inside : ∀ c ∈ run, Decimal.isNumeralChar c) :
    Tighter op run := fun other member =>
  absurd (inside _ member) (Decimal.symbol_not_numeral other)

theorem tighter_symbol {op top : Operator} (looser : op.precedence < top.precedence) :
    Tighter op [top.symbol] := by
  intro other member
  rw [Operator.precedence_eq_rank, Operator.precedence_eq_rank] at looser
  rwa [Operator.symbol_injective (List.mem_singleton.mp member)]

theorem Waits.append {read added : Text} {op : Operator} (waits : Waits read op)
    (tighter : Tighter op added) : Waits (read ++ added) op := by
  obtain ⟨front, tail, rfl, inside⟩ := waits
  exact ⟨front, tail ++ added, by simp, tighter_append inside tighter⟩

theorem Hampered.append {read added rest : Text} {op : Operator}
    (hampered : Hampered read (added ++ rest) op) (tighter : Tighter op added) :
    Hampered (read ++ added) rest op := by
  obtain ⟨front, tail, rfl, inside, before, after, other, rfl, lacks⟩ := hampered
  refine ⟨front, before ++ other.symbol :: after ++ added, by simp, tighter_append inside tighter,
    before, after ++ added, other, by simp, ?_⟩
  rwa [List.append_assoc]

theorem Waits.hampered {read rest : Text} {op top : Operator} (waits : Waits read op)
    (looser : op.precedence < top.precedence) (lacks : Lacks read rest) :
    Hampered (read ++ [top.symbol]) rest op := by
  obtain ⟨front, tail, rfl, inside⟩ := waits
  exact ⟨front, tail ++ [top.symbol], by simp, tighter_append inside (tighter_symbol looser),
    tail, [], top, rfl, lacks⟩

theorem Waits.last_or_hampered {read rest : Text} {op : Operator} (waits : Waits read op)
    (before : ∀ c ∈ read.getLast?, Operator.isSymbol c)
    (after : ∀ c ∈ rest.head?, Operator.isSymbol c) :
    (∃ front, read = front ++ [op.symbol]) ∨ Hampered read rest op := by
  obtain ⟨front, tail, rfl, tighter⟩ := waits
  cases tail using List.reverseRecOn with
  | nil => exact Or.inl ⟨front, rfl⟩
  | append_singleton inner last =>
      -- the operator read last has no operand behind it
      have ending : (front ++ op.symbol :: (inner ++ [last])).getLast? = some last := by
        rw [← List.cons_append, ← List.append_assoc, List.getLast?_concat]
      obtain ⟨top, rfl⟩ := Operator.isSymbol_iff.mp (before last ending)
      exact Or.inr ⟨front, inner ++ [top.symbol], rfl, tighter, inner, [], top, rfl, Or.inr after⟩

theorem Waits.mem_tail {read front tail : Text} {op top : Operator} (waits : Waits read top)
    (split : read = front ++ op.symbol :: tail) (looser : op.precedence < top.precedence) :
    top.symbol ∈ tail := by
  obtain ⟨front', tail', rfl, inside⟩ := waits
  rcases List.append_eq_append_iff.mp split with ⟨middle, _, after⟩ | ⟨middle, _, after⟩
  · cases middle with
    | nil =>
        have same := Operator.symbol_injective (List.cons.inj after).1
        rw [same] at looser
        exact absurd looser (Nat.lt_irrefl _)
    | cons c middle =>
        -- the looser one would stand in what follows the tighter one
        obtain ⟨_, rfl⟩ := List.cons.inj after
        have tighter := inside op (by simp)
        rw [op.precedence_eq_rank, top.precedence_eq_rank] at looser
        omega
  · cases middle with
    | nil =>
        have same := Operator.symbol_injective (List.cons.inj after).1
        rw [same] at looser
        exact absurd looser (Nat.lt_irrefl _)
    | cons c middle =>
        obtain ⟨_, rfl⟩ := List.cons.inj after
        simp

theorem looser_of_falls {ops : List Operator}
    (falls : ops.Pairwise fun above op => op.precedence < above.precedence) {rank : Nat}
    (top : ∀ op ∈ ops.head?, op.precedence < rank) : ∀ op ∈ ops, op.precedence < rank := by
  cases ops with
  | nil => exact List.forall_mem_nil _
  | cons above rest =>
      have first := top above rfl
      refine List.forall_mem_cons.mpr ⟨first, fun op member => ?_⟩
      exact Nat.lt_trans ((List.pairwise_cons.mp falls).1 op member) first

namespace Stacked

variable {read : Text} {ops : List Operator}

theorem nil (read : Text) : Stacked read [] := ⟨by simp, .nil⟩

theorem suffix (stacked : Stacked read ops) {lower : List Operator} (kept : lower <:+ ops) :
    Stacked read lower :=
  ⟨fun op member => stacked.waits op (kept.subset member), stacked.falls.sublist kept.sublist⟩

theorem append_run (stacked : Stacked read ops) {run : Text}
    (inside : ∀ c ∈ run, Decimal.isNumeralChar c) : Stacked (read ++ run) ops :=
  ⟨fun op member => (stacked.waits op member).append (tighter_run op inside), stacked.falls⟩

theorem push (stacked : Stacked read ops) {top : Operator}
    (looser : ∀ op ∈ ops, op.precedence < top.precedence) :
    Stacked (read ++ [top.symbol]) (top :: ops) := by
  have waits : Waits (read ++ [top.symbol]) top :=
    ⟨read, [], rfl, fun _ member => absurd member List.not_mem_nil⟩
  refine ⟨List.forall_mem_cons.mpr ⟨waits, fun op member => ?_⟩, .cons looser stacked.falls⟩
  exact (stacked.waits op member).append (tighter_symbol (looser op member))

theorem looser (stacked : Stacked read ops) {rank : Nat}
    (top : ∀ op ∈ ops.head?, op.precedence < rank) : ∀ op ∈ ops, op.precedence < rank :=
  looser_of_falls stacked.falls top

end Stacked

namespace Machine

variable {α : Type} [Arithmetic α]

theorem reduce_short {op : Operator} {m : Machine α} {failure : Failure α}
    (failed : m.reduce op = .error failure) :
    failure = ⟨.missingOperand op, m.steps⟩ ∧ m.operands.length < 2 := by
  rcases m with ⟨_ | ⟨right, _ | ⟨left, rest⟩⟩, operators, steps⟩
  · cases failed
    exact ⟨rfl, Nat.zero_lt_two⟩
  · cases failed
    exact ⟨rfl, Nat.one_lt_two⟩
  · cases failed

theorem settle_suffix {rank : Nat} {ops : List Operator} {m next : Machine α}
    (settled : settle rank ops m = .ok next) :
    next.operators <:+ ops ∧ ∀ op ∈ next.operators.head?, op.precedence < rank := by
  induction ops generalizing m with
  | nil =>
      cases settled
      exact ⟨List.suffix_rfl, by simp⟩
  | cons op rest ih =>
      rw [settle] at settled
      by_cases tight : rank ≤ op.precedence
      · rw [if_pos tight] at settled
        obtain ⟨middle, _, remaining⟩ := bind_ok.mp settled
        obtain ⟨lower, top⟩ := ih remaining
        exact ⟨lower.trans (List.suffix_cons op rest), top⟩
      · rw [if_neg tight] at settled
        cases settled
        refine ⟨List.suffix_rfl, ?_⟩
        rintro _ ⟨⟩
        exact Nat.lt_of_not_le tight

theorem stacked_of_feed {read : Text} {op : Operator} {m next : Machine α}
    (stacked : Stacked read m.operators) (fed : m.feed (.operator op) = .ok next) :
    ∃ settled : Machine α, m.settle op.precedence m.operators = .ok settled ∧
      next = { settled with operators := op :: settled.operators } ∧
      settled.operators <:+ m.operators ∧ Stacked read settled.operators ∧
      ∀ other ∈ settled.operators, other.precedence < op.precedence := by
  obtain ⟨settled, done, pushed⟩ := bind_ok.mp fed
  cases pushed
  obtain ⟨lower, top⟩ := settle_suffix done
  have kept := stacked.suffix lower
  exact ⟨settled, done, rfl, lower, kept, kept.looser top⟩

/-- Properties of the states of an evaluation, by what has been read and what is left, that each
token carries on: one for the states that await an operand, one for those that hold one. -/
structure Invariant (text : Text) (Ends : Except (Failure α) (α × List (Step α)) → Prop) where
  Awaits : Text → Text → Machine α → Prop
  Holds : Text → Text → Machine α → Prop
  start : Awaits [] text {}
  literal : ∀ {read rest : Text} {m : Machine α} (l : Literal), Awaits read (l.run ++ rest) m →
    (∀ c ∈ rest.head?, ¬ Decimal.isNumeralChar c) →
    Holds (read ++ l.run) rest { m with operands := Arithmetic.ofDecimal l.decimal :: m.operands }
  operator : ∀ {read rest : Text} {m next : Machine α} (op : Operator),
    Awaits read (op.symbol :: rest) m ∨ Holds read (op.symbol :: rest) m →
    m.feed (.operator op) = .ok next → Awaits (read ++ [op.symbol]) rest next
  stop : ∀ {read rest : Text} {m : Machine α} {failure : Failure α} (op : Operator),
    Awaits read (op.symbol :: rest) m ∨ Holds read (op.symbol :: rest) m →
    m.feed (.operator op) = .error failure → Ends (.error failure)
  fault : ∀ {read rest : Text} {m : Machine α} {error : EvalError},
    Awaits read rest m ∨ Holds read rest m → (∀ op, error ≠ .missingOperand op) →
    Ends (.error ⟨error, m.steps⟩)
  finish : ∀ {read : Text} {m : Machine α}, Awaits read [] m ∨ Holds read [] m → Ends m.finish

namespace Invariant

variable {text : Text} {Ends : Except (Failure α) (α × List (Step α)) → Prop}
  (inv : Invariant text Ends)

include inv

theorem feeds {rest : Text} {tokens : List Token} (reads : Token.Reads rest tokens) {read : Text}
    {m : Machine α} (carried : inv.Awaits read rest m ∨
      inv.Holds read rest m ∧ ∀ c ∈ rest.head?, ¬ Decimal.isNumeralChar c) :
    Ends (tokens.foldlM feed m >>= Machine.finish) := by
  have either : inv.Awaits read rest m ∨ inv.Holds read rest m := carried.imp_right And.left
  induction reads generalizing read m with
  | done => exact inv.finish either
  | @numeral run rest tokens maximal tail ih =>
      have awaits : inv.Awaits read (run ++ rest) m := by
        refine carried.resolve_right fun holds => ?_
        obtain ⟨c, more, rfl⟩ := List.exists_cons_of_ne_nil maximal.nonempty
        exact holds.2 c rfl (maximal.numeral c List.mem_cons_self)
      rw [List.foldlM_cons]
      cases found : Decimal.ofRun? run with
      | none =>
          simp only [feed, found]
          exact inv.fault either (by simp)
      | some d =>
          have literal := (Decimal.ofRun?_isSome_iff run maximal.numeral).mp (by simp [found])
          let l : Literal := ⟨run, literal⟩
          have holds := inv.literal l awaits maximal.ends
          have decimal : l.decimal = d := Option.some.inj (l.ofRun?_run.symm.trans found)
          rw [decimal] at holds
          simp only [feed, found]
          exact ih (Or.inr ⟨holds, maximal.ends⟩) (Or.inr holds)
  | operator op tail ih =>
      rw [List.foldlM_cons]
      cases fed : m.feed (.operator op) with
      | error failure => exact inv.stop op either fed
      | ok next =>
          have awaits := inv.operator op either fed
          exact ih (Or.inl awaits) (Or.inl awaits)
  | unexpected rest unknown => exact inv.fault either (by simp)

theorem run : Ends (Machine.run (Token.scan text)) :=
  inv.feeds (Token.reads_scan text) (Or.inl inv.start)

end Invariant

end Machine

end Calculator
