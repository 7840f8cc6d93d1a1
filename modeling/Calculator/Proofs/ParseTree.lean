import Calculator.Evaluation
import Calculator.Proofs.Literal

/-! Parse trees of expressions.

There are no parentheses, so a tree is fixed by how its operators bind: what stands to the left of
an operator binds at least as tightly as it does, and what stands to its right more tightly. These
two conditions leave every text at most one tree, and that tree says what the text is worth. -/

namespace Calculator

/-- Powers bind more tightly than products and quotients, and those more tightly than sums and
differences. -/
def Operator.rank : Operator → Nat
  | pow => 3
  | mul | div => 2
  | add | sub => 1

-- The evaluation has a table of its own; readings of a text do not go by it.
theorem Operator.precedence_eq_rank (op : Operator) : op.precedence = op.rank := by
  cases op <;> rfl

inductive Tree where
  | literal (l : Literal)
  | node (op : Operator) (left right : Tree)

namespace Tree

def text : Tree → Text
  | literal l => l.run
  | node op left right => left.text ++ op.symbol :: right.text

def operators : Tree → List Operator
  | literal _ => []
  | node op left right => left.operators ++ op :: right.operators

/-- No operator binds more loosely than `level`. -/
def Binds (level : Nat) (tree : Tree) : Prop := ∀ op ∈ tree.operators, level ≤ op.rank

/-- Every operator groups to the left and has the tighter ones below it. -/
def Grouped : Tree → Prop
  | literal _ => True
  | node op left right =>
      left.Grouped ∧ right.Grouped ∧
        left.Binds op.rank ∧ right.Binds (op.rank + 1)

/-- The tree is a reading of the text in which the operators are grouped. -/
structure Parses (text : Text) (tree : Tree) : Prop where
  text_eq : tree.text = text
  grouped : tree.Grouped

variable {α : Type} [Arithmetic α]

def value : Tree → α
  | literal l => Arithmetic.ofDecimal l.decimal
  | node op left right => Arithmetic.apply op left.value right.value

/-- The applications at the inner nodes, each after those of its operands. -/
def steps : Tree → List (Step α)
  | literal _ => []
  | node op left right =>
      left.steps ++ right.steps ++
        [⟨op, left.value, right.value, Arithmetic.apply op left.value right.value⟩]

theorem binds_mono {low high : Nat} {tree : Tree} (binds : tree.Binds high) (le : low ≤ high) :
    tree.Binds low := by
  intro op member
  exact Nat.le_trans le (binds op member)

theorem binds_literal (level : Nat) (l : Literal) : (literal l).Binds level := by
  intro op member
  cases member

theorem binds_node {op : Operator} {left right : Tree} (first : left.Binds op.rank)
    (second : right.Binds (op.rank + 1)) : (node op left right).Binds op.rank := by
  intro other member
  simp only [operators, List.mem_append, List.mem_cons] at member
  rcases member with member | rfl | member
  · exact first other member
  · exact Nat.le_refl _
  · exact Nat.le_of_succ_le (second other member)

theorem operator_of_symbol (tree : Tree) (op : Operator) (present : op.symbol ∈ tree.text) :
    op ∈ tree.operators := by
  induction tree with
  | literal l => exact absurd (l.literal.numeral _ present) (Decimal.symbol_not_numeral op)
  | node other left right ihl ihr =>
      simp only [text, List.mem_append, List.mem_cons] at present
      simp only [operators, List.mem_append, List.mem_cons]
      rcases present with present | same | present
      · exact Or.inl (ihl present)
      · exact Or.inr (Or.inl (Operator.symbol_injective same))
      · exact Or.inr (Or.inr (ihr present))

theorem literal_text_ne (l : Literal) (op : Operator) (left right : Tree) :
    (literal l).text ≠ (node op left right).text := by
  intro same
  have present : op.symbol ∈ (literal l).text := by
    rw [same]
    simp [text]
  have member := operator_of_symbol (literal l) op present
  cases member

/-- Two roots cannot stand at different places: the one further left would have the other on its
right, where it binds more tightly, and be on the other's left, where it binds no more loosely. -/
theorem roots_not_crossing {op other : Operator} {left right left' right' : Tree} {middle : Text}
    (grouped : (node op left right).Grouped) (grouped' : (node other left' right').Grouped)
    (before : left'.text = left.text ++ op.symbol :: middle)
    (after : right.text = middle ++ other.symbol :: right'.text) : False := by
  have inside : op ∈ left'.operators := operator_of_symbol left' op (by simp [before])
  have outside : other ∈ right.operators := operator_of_symbol right other (by simp [after])
  have looser : other.rank ≤ op.rank := grouped'.2.2.1 op inside
  have tighter : op.rank + 1 ≤ other.rank := grouped.2.2.2 other outside
  omega

theorem roots_agree {op other : Operator} {left right left' right' : Tree}
    (grouped : (node op left right).Grouped) (grouped' : (node other left' right').Grouped)
    (same : (node op left right).text = (node other left' right').text) :
    op = other ∧ left.text = left'.text ∧ right.text = right'.text := by
  rcases List.append_eq_append_iff.mp same with ⟨middle, before, after⟩ | ⟨middle, before, after⟩
  · cases middle with
    | nil =>
        simp only [List.nil_append, List.cons.injEq, List.append_nil] at before after
        exact ⟨Operator.symbol_injective after.1, before.symm, after.2⟩
    | cons c middle =>
        rcases List.cons.inj after with ⟨rfl, rest⟩
        exact (roots_not_crossing grouped grouped' before rest).elim
  · cases middle with
    | nil =>
        simp only [List.nil_append, List.cons.injEq, List.append_nil] at before after
        exact ⟨(Operator.symbol_injective after.1).symm, before, after.2.symm⟩
    | cons c middle =>
        rcases List.cons.inj after with ⟨rfl, rest⟩
        exact (roots_not_crossing grouped' grouped before rest).elim

theorem eq_of_text (first second : Tree) (grouped : first.Grouped) (grouped' : second.Grouped)
    (same : first.text = second.text) : first = second := by
  induction first generalizing second with
  | literal l =>
      cases second with
      | literal l' =>
          cases l
          cases l'
          cases same
          rfl
      | node op left right => exact absurd same (literal_text_ne l op left right)
  | node op left right ihl ihr =>
      cases second with
      | literal l => exact absurd same.symm (literal_text_ne l op left right)
      | node other left' right' =>
          rcases roots_agree grouped grouped' same with ⟨root, before, after⟩
          have lefts := ihl left' grouped.1 grouped'.1 before
          have rights := ihr right' grouped.2.1 grouped'.2.1 after
          rw [root, lefts, rights]

theorem Parses.unique {text : Text} {first second : Tree} (parses : Parses text first)
    (parses' : Parses text second) : first = second :=
  eq_of_text first second parses.grouped parses'.grouped (parses.text_eq.trans parses'.text_eq.symm)

end Tree

end Calculator
