import Calculator.Proofs.ParseTree
import Calculator.Proofs.Scan

/-! Chains `lit op lit op ... lit` and the trees they are read as.

A chain is read from left to right. Operators that wait for their right operand are stacked with
their left one, and an incoming operator first completes those on top that bind at least as tightly
as it does. Ranks therefore fall from the top of the stack downwards, and completing all of
it at the end gives a grouped tree. -/

namespace Calculator

structure Link where
  op : Operator
  l : Literal

structure Chain where
  first : Literal
  rest : List Link

/-- An operator with its left operand, waiting for the right one. -/
structure Pending where
  left : Tree
  op : Operator

namespace Pending

/-- The tree completes the top of the stack, which completes the next one, and so on. -/
def close : List Pending → Tree → Tree
  | [], tree => tree
  | top :: stack, tree => close stack (.node top.op top.left tree)

/-- Completes what is stacked, down to the first that binds more loosely than `rank`. -/
def settle (rank : Nat) : List Pending → Tree → List Pending × Tree
  | [], tree => ([], tree)
  | top :: stack, tree =>
    if rank ≤ top.op.rank then settle rank stack (.node top.op top.left tree)
    else (top :: stack, tree)

/-- A tree whose operators bind at least as tightly as `level` may complete the stack. -/
def Nested : List Pending → Nat → Prop
  | [], _ => True
  | top :: stack, level =>
      top.op.rank < level ∧ top.left.Grouped ∧ top.left.Binds top.op.rank ∧
        Nested stack top.op.rank

theorem close_settle (rank : Nat) (stack : List Pending) (tree : Tree) :
    close (settle rank stack tree).1 (settle rank stack tree).2 = close stack tree := by
  induction stack generalizing tree with
  | nil => rfl
  | cons top stack ih =>
      by_cases tight : rank ≤ top.op.rank
      · simp only [settle, tight, if_true, close]
        exact ih _
      · simp only [settle, tight, if_false]

theorem settle_zero (stack : List Pending) (tree : Tree) :
    settle 0 stack tree = ([], close stack tree) := by
  induction stack generalizing tree with
  | nil => rfl
  | cons top stack ih =>
      simp only [settle, Nat.zero_le, if_true, close]
      exact ih _

theorem text_close (stack : List Pending) (tree longer : Tree) (added : Text)
    (text : longer.text = tree.text ++ added) :
    (close stack longer).text = (close stack tree).text ++ added := by
  induction stack generalizing tree longer with
  | nil => exact text
  | cons top stack ih =>
      apply ih
      simp only [Tree.text, text, List.append_assoc, List.cons_append]

theorem grouped_close (stack : List Pending) (level : Nat) (tree : Tree)
    (nested : Nested stack level) (grouped : tree.Grouped) (binds : tree.Binds level) :
    (close stack tree).Grouped := by
  induction stack generalizing level tree with
  | nil => exact grouped
  | cons top stack ih =>
      rcases nested with ⟨looser, left, tight, outer⟩
      have right : tree.Binds (top.op.rank + 1) := Tree.binds_mono binds looser
      exact ih top.op.rank _ outer ⟨left, grouped, tight, right⟩
        (Tree.binds_node tight right)

theorem settle_nested (rank : Nat) (stack : List Pending) (level : Nat) (tree : Tree)
    (le : rank ≤ level) (nested : Nested stack level) (grouped : tree.Grouped)
    (binds : tree.Binds level) :
    Nested (settle rank stack tree).1 rank ∧ (settle rank stack tree).2.Grouped ∧
      (settle rank stack tree).2.Binds rank := by
  induction stack generalizing level tree with
  | nil => exact ⟨trivial, grouped, Tree.binds_mono binds le⟩
  | cons top stack ih =>
      rcases nested with ⟨looser, left, tight, outer⟩
      by_cases fills : rank ≤ top.op.rank
      · have right : tree.Binds (top.op.rank + 1) := Tree.binds_mono binds looser
        simp only [settle, fills, if_true]
        exact ih top.op.rank _ fills outer ⟨left, grouped, tight, right⟩
          (Tree.binds_node tight right)
      · simp only [settle, fills, if_false]
        exact ⟨⟨by omega, left, tight, outer⟩, grouped, Tree.binds_mono binds le⟩

end Pending

def Link.text (link : Link) : Text := link.op.symbol :: link.l.run

def Link.tokens (link : Link) : List Token := [.operator link.op, .numeral link.l.run]

namespace Chain

def text (chain : Chain) : Text := chain.first.run ++ chain.rest.flatMap Link.text

def tokens (chain : Chain) : List Token :=
  .numeral chain.first.run :: chain.rest.flatMap Link.tokens

def extend (stack : List Pending) (tree : Tree) : List Link → List Pending × Tree
  | [] => (stack, tree)
  | link :: links =>
    let settled := Pending.settle link.op.rank stack tree
    extend (⟨settled.2, link.op⟩ :: settled.1) (.literal link.l) links

def tree (chain : Chain) : Tree :=
  let read := extend [] (.literal chain.first) chain.rest
  Pending.close read.1 read.2

theorem text_extend (stack : List Pending) (tree : Tree) (links : List Link) :
    (Pending.close (extend stack tree links).1 (extend stack tree links).2).text =
      (Pending.close stack tree).text ++ links.flatMap Link.text := by
  induction links generalizing stack tree with
  | nil => simp [extend]
  | cons link links ih =>
      let settled := Pending.settle link.op.rank stack tree
      have added : (Pending.close settled.1 (.node link.op settled.2 (.literal link.l))).text =
          (Pending.close settled.1 settled.2).text ++ link.text :=
        Pending.text_close settled.1 settled.2 _ _ rfl
      have unchanged := Pending.close_settle link.op.rank stack tree
      calc
        _ = (Pending.close (⟨settled.2, link.op⟩ :: settled.1) (.literal link.l)).text ++
            links.flatMap Link.text := ih _ _
        _ = (Pending.close stack tree).text ++ link.text ++ links.flatMap Link.text := by
          rw [← unchanged, ← added]
          rfl
        _ = _ := by simp

theorem rank_lt (op : Operator) : op.rank < 4 := by
  cases op <;> decide

theorem grouped_extend (stack : List Pending) (l : Literal) (links : List Link)
    (nested : Pending.Nested stack 4) :
    (Pending.close (extend stack (.literal l) links).1
      (extend stack (.literal l) links).2).Grouped := by
  induction links generalizing stack l with
  | nil => exact Pending.grouped_close stack 4 _ nested trivial (Tree.binds_literal 4 l)
  | cons link links ih =>
      have below := rank_lt link.op
      obtain ⟨outer, grouped, tight⟩ := Pending.settle_nested link.op.rank stack 4 (.literal l)
        (Nat.le_of_lt below) nested trivial (Tree.binds_literal 4 l)
      exact ih _ link.l ⟨below, grouped, tight, outer⟩

theorem parses_tree (chain : Chain) : Tree.Parses chain.text chain.tree where
  text_eq := text_extend [] (.literal chain.first) chain.rest
  grouped := grouped_extend [] chain.first chain.rest trivial

theorem known_links (links : List Link) :
    ∀ c ∈ links.flatMap Link.text, Known c := by
  intro c member
  rcases List.mem_flatMap.mp member with ⟨link, _, present⟩
  exact known_symbol_run link.op link.l.literal.numeral c present

theorem known_text (chain : Chain) : ∀ c ∈ chain.text, Known c := by
  intro c member
  rcases List.mem_append.mp member with inside | linked
  · exact Or.inl (chain.first.literal.numeral c inside)
  · exact known_links chain.rest c linked

end Chain

end Calculator
