import Calculator.Report
import Calculator.Proofs.DivisionByZero
import Calculator.Proofs.PrintedLines
import Calculator.Proofs.TraceSteps

namespace Calculator

namespace Text

theorem lines_breaks {first : Text} {parts : List Text} (whole : ∀ part ∈ first :: parts, '\n' ∉ part) :
    lines (first ++ parts.flatMap ('\n' :: ·) ++ ['\n']) = (first :: parts).map (· ++ ['\n']) := by
  have text : first ++ parts.flatMap ('\n' :: ·) ++ ['\n'] =
      ((first :: parts).map (· ++ ['\n'])).flatten := by
    induction parts generalizing first with
    | nil => simp
    | cons part parts ih =>
        have later := ih (List.forall_mem_cons.mp whole).2
        rw [List.map_cons, List.flatten_cons, ← later]
        simp
  have closed : ∀ line ∈ (first :: parts).map (· ++ ['\n']), IsLine line := by
    intro line member
    obtain ⟨part, present, rfl⟩ := List.mem_map.mp member
    exact ⟨part, rfl, whole part present⟩
  have split := lines_flatten_append closed []
  rw [List.append_nil] at split
  rw [text, split, lines, List.append_nil]

end Text

theorem newline_not_written {text : Text} (written : ∀ c ∈ text, Written c) : '\n' ∉ text := by
  intro member
  exact absurd (written _ member) (by decide)

namespace Step

/-- The line of a report for the application with a number. -/
def reportLine (number : Nat) (step : Step Float) : Text :=
  "  Step ".toList ++ Text.ofNat number ++ ": ".toList ++
    (Shortest.plain step.left ++ ' ' :: step.op.symbol :: ' ' :: Shortest.plain step.right ++
      " = ".toList ++ Fixed.ofFloat step.result)

theorem reportLine_eq (number : Nat) (step : Step Float) : step.reportLine number =
    "  Step ".toList ++ Text.ofNat number ++ ": ".toList ++ step.equation :=
  rfl

theorem newline_not_mem_reportLine (number : Nat) (step : Step Float) :
    '\n' ∉ step.reportLine number := by
  have count := newline_not_written (written_ofNat number)
  have equation := newline_not_written step.written_equation
  rw [reportLine_eq]
  simp [count, equation]

theorem listing_breaks (steps : List (Step Float)) :
    (listing steps).flatMap ("\n  ".toList ++ ·) =
      (steps.mapIdx fun i step => step.reportLine (i + 1)).flatMap ('\n' :: ·) := by
  rw [listing, List.mapIdx_eq_zipIdx_map, List.mapIdx_eq_zipIdx_map, List.flatMap_map,
    List.flatMap_map]
  -- a line begins with characters that are the same on both sides
  rfl

end Step

section

variable {text : Text} {value : Float}

theorem Report.ofExpression_finite (ok : (evaluate text : Evaluation Float).outcome = .ok value)
    (finite : value.isFinite) (details : Bool) : Report.ofExpression text details =
      ⟨Fixed.ofFloat value ++ (if details then Step.listing (evaluate text).steps else []).flatMap
        ("\n  ".toList ++ ·), true⟩ := by
  simp only [ofExpression, ok, if_pos finite]

theorem steps_of_ok (ok : (evaluate text : Evaluation Float).outcome = .ok value) :
    (evaluate text : Evaluation Float).steps.length = text.countP Operator.isSymbol ∧
      ∀ last ∈ (evaluate text : Evaluation Float).steps.getLast?, last.result = value := by
  obtain ⟨chain, rfl⟩ := chain_of_ok ok
  rw [evaluate_text] at ok ⊢
  cases ok
  rw [Tree.steps_eq_inner]
  constructor
  · rw [List.length_map, Tree.length_inner, chain.parses_tree.text_eq]
  · intro last final
    rw [List.getLast?_map] at final
    obtain ⟨node, root, rfl⟩ := Option.map_eq_some_iff.mp final
    exact congrArg Tree.value (Tree.tree_of_last_inner root)

end

theorem Report.ofExpression_failed {text : Text}
    (failed : ∀ value, (evaluate text : Evaluation Float).outcome = .ok value → ¬ value.isFinite)
    (details : Bool) : Report.ofExpression text details = ⟨"Error".toList, false⟩ := by
  cases outcome : (evaluate text : Evaluation Float).outcome with
  | error error => simp only [ofExpression, outcome]
  | ok value => exact ofExpression_not_finite outcome (failed value outcome) details

/-- Details change neither success nor the output of a failure. Where there is a result, they add a
line for each operator of the expression, in the order in which a record kept during the evaluation
has the applications, and the last line ends with the result. -/
theorem Report.ofExpression_details (text : Text) :
    let plain := Report.ofExpression text false
    let detailed := Report.ofExpression text true
    let run (details : Bool) :=
      (Recording.evaluate text : Recording Float Float).run.run { detailed := details }
    detailed.success = plain.success ∧
      (∀ details, (Report.ofExpression text details).success = true ↔
        ∃ value, (run details).1 = .ok value ∧ value.isFinite) ∧
      (plain.success = false → plain.output = "Error".toList ∧ detailed.output = "Error".toList) ∧
      (plain.success = true →
        let steps := (run true).2.steps
        steps.length = text.countP Operator.isSymbol ∧
        Text.lines (detailed.output ++ ['\n']) = (plain.output ::
          steps.mapIdx fun i step => step.reportLine (i + 1)).map (· ++ ['\n']) ∧
        ∀ last ∈ steps.getLast?, Fixed.ofFloat last.result = plain.output) := by
  intro plain detailed run
  have outcome (details : Bool) : (run details).1 = (evaluate text : Evaluation Float).outcome := by
    simp only [run, Recording.run_evaluate, Trace.evaluate]
  have kept : (run true).2.steps = (evaluate text : Evaluation Float).steps := by
    simp only [run, Recording.run_evaluate, Trace.evaluate, if_pos, List.nil_append]
  simp only [outcome, kept]
  by_cases success : ∃ value, (evaluate text : Evaluation Float).outcome = .ok value ∧ value.isFinite
  · obtain ⟨value, ok, finite⟩ := id success
    have brief : plain = ⟨Fixed.ofFloat value ++ [], true⟩ := ofExpression_finite ok finite false
    have full : detailed = _ := ofExpression_finite ok finite true
    obtain ⟨length, result⟩ := steps_of_ok ok
    rw [brief, full, List.append_nil, if_pos rfl, Step.listing_breaks]
    refine ⟨rfl, fun details => ?_, by simp, fun _ => ⟨length, ?_, ?_⟩⟩
    · rw [ofExpression_finite ok finite details]
      exact iff_of_true rfl success
    · apply Text.lines_breaks
      refine List.forall_mem_cons.mpr ⟨newline_not_written (Fixed.written value), ?_⟩
      intro line member
      obtain ⟨i, bound, rfl⟩ := List.mem_mapIdx.mp member
      exact Step.newline_not_mem_reportLine _ _
    · intro last final
      rw [result last final]
  · have failed (details : Bool) : Report.ofExpression text details = ⟨"Error".toList, false⟩ :=
      ofExpression_failed (fun value ok finite => success ⟨value, ok, finite⟩) details
    have brief : plain = ⟨"Error".toList, false⟩ := failed false
    have full : detailed = ⟨"Error".toList, false⟩ := failed true
    rw [brief, full]
    refine ⟨rfl, fun details => ?_, fun _ => ⟨rfl, rfl⟩, by simp⟩
    rw [failed details]
    exact iff_of_false Bool.false_ne_true success

example : Report.ofExpression "2+3*4".toList true =
    ⟨"14\n  Step 1: 3 * 4 = 12\n  Step 2: 2 + 12 = 14".toList, true⟩ := by
  decide +kernel

end Calculator
