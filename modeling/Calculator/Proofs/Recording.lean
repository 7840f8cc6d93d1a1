import Calculator.Evaluation

/-! Evaluation with the record at hand.

Here every application goes into a given record at the moment it is made, if the record takes any.
The record is never read, so the outcome is the same with every record, and what is added to it is
what the evaluation without one lists at its end. -/

namespace Calculator

namespace Trace

variable {α : Type}

def add (trace : Trace α) (step : Step α) : Trace α :=
  if trace.detailed then { trace with steps := trace.steps ++ [step] } else trace

def addAll (trace : Trace α) (newest : List (Step α)) : Trace α :=
  { trace with steps := trace.steps ++ if trace.detailed then newest.reverse else [] }

theorem addAll_nil (trace : Trace α) : trace.addAll [] = trace := by
  simp [addAll]

theorem add_addAll (trace : Trace α) (newest : List (Step α)) (step : Step α) :
    (trace.addAll newest).add step = trace.addAll (step :: newest) := by
  by_cases detailed : trace.detailed <;> simp [add, addAll, detailed]

end Trace

abbrev Recording (α β : Type) := ExceptT EvalError (StateM (Trace α)) β

structure Stacks (α : Type) where
  operands : List α := []
  operators : List Operator := []

namespace Recording

variable {α : Type}

/-- How a recorded computation ends when the same one without a record ends as `plain` does. -/
def told {β γ : Type} (trace : Trace α) (view : γ → β × List (Step α)) :
    Except (Failure α) γ → Except EvalError β × Trace α
  | .ok c => (.ok (view c).1, trace.addAll (view c).2)
  | .error failure => (.error failure.error, trace.addAll failure.steps)

theorem run_bind {β γ δ ε : Type} {start trace : Trace α} {view : γ → β × List (Step α)}
    {view' : ε → δ × List (Step α)} {first : Recording α β} {plain : Except (Failure α) γ}
    {rest : β → Recording α δ} {next : γ → Except (Failure α) ε}
    (begun : first.run.run start = told trace view plain)
    (continued : ∀ c, (rest (view c).1).run.run (trace.addAll (view c).2) = told trace view' (next c)) :
    (first >>= rest).run.run start = told trace view' (plain >>= next) := by
  rw [ExceptT.run_bind, StateT.run_bind, begun]
  cases plain with
  | error failure => rfl
  | ok c => exact continued c

def parts (m : Machine α) : Stacks α × List (Step α) := (⟨m.operands, m.operators⟩, m.steps)

variable [Arithmetic α]

def reduce (op : Operator) (s : Stacks α) : Recording α (Stacks α) :=
  match s.operands with
  | right :: left :: rest => do
    let result := Arithmetic.apply op left right
    modify fun trace => trace.add ⟨op, left, right, result⟩
    return { s with operands := result :: rest }
  | _ => throw (.missingOperand op)

def settle (rank : Nat) : List Operator → Stacks α → Recording α (Stacks α)
  | [], s => return { s with operators := [] }
  | op :: rest, s => do
    if rank ≤ op.precedence then settle rank rest (← reduce op s)
    else return { s with operators := op :: rest }

def feed (s : Stacks α) : Token → Recording α (Stacks α)
  | .numeral run =>
    match Decimal.ofRun? run with
    | some d => return { s with operands := Arithmetic.ofDecimal d :: s.operands }
    | none => throw (.invalidNumber run)
  | .operator op => do
    let s ← settle op.precedence s.operators s
    return { s with operators := op :: s.operators }
  | .unexpected c => throw (.unexpectedCharacter c)

def finish (s : Stacks α) : Recording α α := do
  let s ← settle 0 s.operators s
  match s.operands with
  | [value] => return value
  | [] => throw .empty
  | operands => throw (.unbalanced operands.length)

def evaluate (text : Text) : Recording α α := do
  finish (← (Token.scan text).foldlM feed {})

variable (trace : Trace α)

theorem run_reduce (op : Operator) (m : Machine α) :
    (reduce op (parts m).1).run.run (trace.addAll m.steps) = told trace parts (m.reduce op) := by
  rcases m with ⟨operands, operators, steps⟩
  match operands with
  | right :: left :: rest =>
      change (Except.ok _, (trace.addAll steps).add _) = _
      rw [Trace.add_addAll]
      rfl
  | [single] => rfl
  | [] => rfl

theorem run_settle (rank : Nat) (ops : List Operator) (m : Machine α) :
    (settle rank ops (parts m).1).run.run (trace.addAll m.steps) =
      told trace parts (m.settle rank ops) := by
  induction ops generalizing m with
  | nil => rfl
  | cons op rest ih =>
      by_cases tight : rank ≤ op.precedence
      · simp only [settle, Machine.settle, tight, if_true]
        exact run_bind (run_reduce trace op m) ih
      · simp only [settle, Machine.settle, tight, if_false]
        rfl

theorem run_feed (m : Machine α) (token : Token) :
    (feed (parts m).1 token).run.run (trace.addAll m.steps) = told trace parts (m.feed token) := by
  cases token with
  | numeral run =>
      simp only [feed, Machine.feed]
      cases Decimal.ofRun? run <;> rfl
  | operator op => exact run_bind (run_settle trace op.precedence m.operators m) fun _ => rfl
  | unexpected c => rfl

theorem run_feeds (tokens : List Token) (m : Machine α) :
    (tokens.foldlM feed (parts m).1).run.run (trace.addAll m.steps) =
      told trace parts (tokens.foldlM Machine.feed m) := by
  induction tokens generalizing m with
  | nil => rfl
  | cons token tokens ih =>
      rw [List.foldlM_cons, List.foldlM_cons]
      exact run_bind (run_feed trace m token) ih

theorem run_finish (m : Machine α) :
    (finish (parts m).1).run.run (trace.addAll m.steps) = told trace id m.finish := by
  refine run_bind (run_settle trace 0 m.operators m) fun last => ?_
  rcases last with ⟨operands, operators, steps⟩
  match operands with
  | [] => rfl
  | [value] => rfl
  | _ :: _ :: _ => rfl

/-- Recording as one goes ends with the outcome of an evaluation without a record, and with the
applications of that evaluation in the record. -/
theorem run_evaluate (text : Text) :
    (evaluate text : Recording α α).run.run trace =
      ((trace.evaluate text).2, (trace.evaluate text).1) := by
  have started := run_feeds trace (Token.scan text) {}
  rw [show trace.addAll ({} : Machine α).steps = trace from trace.addAll_nil] at started
  have ran : (evaluate text : Recording α α).run.run trace =
      told trace id (Machine.run (Token.scan text)) := run_bind started (run_finish trace)
  rw [ran, Trace.evaluate, Calculator.evaluate]
  cases Machine.run (α := α) (Token.scan text) with
  | ok result => rfl
  | error failure => rfl

end Recording

end Calculator
