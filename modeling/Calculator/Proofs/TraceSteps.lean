import Calculator.FloatArithmetic
import Calculator.Proofs.Acceptance
import Calculator.Proofs.Recording

namespace Calculator

structure Inner where
  op : Operator
  left : Tree
  right : Tree

namespace Inner

def tree (node : Inner) : Tree := .node node.op node.left node.right

def text (node : Inner) : Text :=
  Shortest.plain node.left.value ++ ' ' :: node.op.symbol :: ' ' :: Shortest.plain node.right.value

end Inner

namespace Tree

/-- The inner nodes in post-order. -/
def inner : Tree → List Inner
  | literal _ => []
  | node op left right => left.inner ++ right.inner ++ [⟨op, left, right⟩]

theorem steps_eq_inner {α : Type} [Arithmetic α] (tree : Tree) :
    (tree.steps : List (Step α)) =
      tree.inner.map fun node => ⟨node.op, node.left.value, node.right.value, node.tree.value⟩ := by
  induction tree with
  | literal l => rfl
  | node op left right ihl ihr =>
      rw [steps, inner, List.map_append, List.map_append, ihl, ihr]
      rfl

theorem count_literal (l : Literal) : l.run.countP Operator.isSymbol = 0 := by
  rw [List.countP_eq_zero]
  intro c member
  exact Decimal.numeral_not_symbol (l.literal.numeral c member)

theorem length_inner (tree : Tree) : tree.inner.length = tree.text.countP Operator.isSymbol := by
  induction tree with
  | literal l => exact (count_literal l).symm
  | node op left right ihl ihr =>
      have symbol : Operator.isSymbol op.symbol := Operator.isSymbol_iff.mpr ⟨op, rfl⟩
      simp only [inner, text, List.length_append, List.length_singleton, List.countP_append,
        List.countP_cons_of_pos symbol, ihl, ihr]
      omega

theorem tree_of_last_inner {tree : Tree} {node : Inner} (last : node ∈ tree.inner.getLast?) :
    node.tree = tree := by
  cases tree with
  | literal l => cases last
  | node op left right =>
      rw [inner, List.getLast?_concat] at last
      cases last
      rfl

end Tree

theorem Chain.parses_iff (chain : Chain) (tree : Tree) :
    Tree.Parses chain.text tree ↔ tree = chain.tree := by
  constructor
  · intro parses
    exact parses.unique chain.parses_tree
  · rintro rfl
    exact chain.parses_tree

/-- Recording an evaluation changes nothing about its outcome, whatever is recorded already. A record
that is not detailed stays as it is; another one keeps what it has and goes on, if the evaluation
succeeds, with the inner nodes of the parse tree in post-order. -/
theorem Trace.evaluate_laws (trace : Trace Float) (text : Text) :
    (Recording.evaluate text : Recording Float Float).run.run trace =
        ((trace.evaluate text).2, (trace.evaluate text).1) ∧
      (trace.evaluate text).2 = (Calculator.evaluate text : Evaluation Float).outcome ∧
      (trace.evaluate text).1.detailed = trace.detailed ∧
      (trace.detailed = false → (trace.evaluate text).1.steps = trace.steps) ∧
      (trace.detailed = true → ∃ added, (trace.evaluate text).1.steps = trace.steps ++ added ∧
        ∀ value, (Calculator.evaluate text : Evaluation Float).outcome = .ok value →
          ∃ tree : Tree, (∀ other, Tree.Parses text other ↔ other = tree) ∧ tree.value = value ∧
            added.map (fun step => (step.operation, step.result)) =
              tree.inner.map (fun node => (node.text, node.tree.value)) ∧
            added.length = text.countP Operator.isSymbol ∧
            ∀ last ∈ added.getLast?, last.result = value) := by
  refine ⟨Recording.run_evaluate trace text, rfl, rfl, ?_, ?_⟩
  · intro brief
    simp [evaluate, brief]
  · intro detailed
    refine ⟨(Calculator.evaluate text : Evaluation Float).steps, by simp [evaluate, detailed], ?_⟩
    intro value ok
    rcases chain_of_ok ok with ⟨chain, rfl⟩
    rw [evaluate_text] at ok ⊢
    cases ok
    refine ⟨chain.tree, chain.parses_iff, rfl, ?_, ?_, ?_⟩
    · rw [Tree.steps_eq_inner, List.map_map]
      rfl
    · rw [Tree.steps_eq_inner, List.length_map, Tree.length_inner, chain.parses_tree.text_eq]
    · intro last final
      rw [Tree.steps_eq_inner, List.getLast?_map] at final
      rcases Option.map_eq_some_iff.mp final with ⟨node, root, rfl⟩
      exact congrArg Tree.value (Tree.tree_of_last_inner root)

theorem Trace.evaluate_laws_nested :
    let text : Text := "1-2/4*3^2".toList
    let earlier : Step Float := ⟨.add, 1, 2, 3⟩
    let power := Float.pow 3 2
    ∃ added, ((⟨true, [earlier]⟩ : Trace Float).evaluate text).1.steps = [earlier] ++ added ∧
      added.map (fun step => (step.operation, step.result)) =
        [("2 / 4".toList, 0.5), ("3 ^ 2".toList, power),
          ("0.5 * ".toList ++ Shortest.plain power, 0.5 * power),
          ("1 - ".toList ++ Shortest.plain (0.5 * power), 1 - 0.5 * power)] := by
  intro text earlier power
  let leaf (c : Char) (digit : c.isDigit) : Tree := .literal (.ofDigit c digit)
  let quotient : Tree := .node .div (leaf '2' rfl) (leaf '4' rfl)
  let square : Tree := .node .pow (leaf '3' rfl) (leaf '2' rfl)
  let product : Tree := .node .mul quotient square
  let tree : Tree := .node .sub (leaf '1' rfl) product
  have grouped : tree.Grouped := by
    simp [tree, product, quotient, square, leaf, Tree.Grouped, Tree.Binds, Tree.operators,
      Operator.rank]
  have ok : (Calculator.evaluate text : Evaluation Float).outcome = .ok tree.value := rfl
  obtain ⟨added, kept, nodes⟩ := (evaluate_laws ⟨true, [earlier]⟩ text).2.2.2.2 rfl
  obtain ⟨only, parses, _, steps, _⟩ := nodes tree.value ok
  obtain rfl : tree = only := (parses tree).mp ⟨rfl, grouped⟩
  have one : ((leaf '1' rfl).value : Float) = 1 := by decide +kernel
  have half : (quotient.value : Float) = 0.5 := by decide +kernel
  have squared : (square.value : Float) = power :=
    congrArg₂ Float.pow (by decide +kernel) (by decide +kernel)
  have multiplied : (product.value : Float) = 0.5 * power := congrArg₂ (· * ·) half squared
  have taken : (tree.value : Float) = 1 - 0.5 * power := congrArg₂ (· - ·) one multiplied
  have texts : Inner.text ⟨.div, leaf '2' rfl, leaf '4' rfl⟩ = "2 / 4".toList ∧
      Inner.text ⟨.pow, leaf '3' rfl, leaf '2' rfl⟩ = "3 ^ 2".toList ∧
      Shortest.plain 0.5 = "0.5".toList ∧ Shortest.plain 1 = ['1'] := by
    decide +kernel
  obtain ⟨first, second, zero, unit⟩ := texts
  refine ⟨added, kept, steps.trans ?_⟩
  calc
    _ = [(Inner.text ⟨.div, leaf '2' rfl, leaf '4' rfl⟩, quotient.value),
        (Inner.text ⟨.pow, leaf '3' rfl, leaf '2' rfl⟩, square.value),
        (Shortest.plain quotient.value ++ " * ".toList ++ Shortest.plain square.value, product.value),
        (Shortest.plain (leaf '1' rfl).value ++ " - ".toList ++ Shortest.plain product.value,
          tree.value)] := by
      simp only [List.append_assoc]
      rfl
    _ = _ := by
      rw [first, second, one, half, squared, multiplied, taken, zero, unit]
      rfl

end Calculator
