import Mathlib.Data.List.Basic
import Mathlib.Data.List.Induction
import Calculator.Session

namespace Calculator.Session

def after (keys : List Key) : Session := keys.foldl press {}

/-- What an equals press records: the buffer and its value as it is shown, if that is finite. -/
def recorded? (s : Session) : Option Entry :=
  match (evaluate s.buffer : Evaluation Float).outcome with
  | .ok value => if value.isFinite then some ⟨s.buffer, Fixed.ofFloat value⟩ else none
  | .error _ => none

/-- The equals presses since the last clear, each by the number of keys before it. -/
def equalsSinceClear (keys : List Key) : List Nat :=
  (List.range keys.length).filter fun i => keys[i]? = some .equals ∧ .clear ∉ keys.drop i

theorem recorded_eq_some_iff (s : Session) (entry : Entry) :
    s.recorded? = some entry ↔ ∃ value : Float,
      (evaluate s.buffer : Evaluation Float).outcome = .ok value ∧ value.isFinite ∧
        entry = ⟨s.buffer, Fixed.ofFloat value⟩ := by
  unfold recorded?
  cases (evaluate s.buffer : Evaluation Float).outcome with
  | error error => simp only [reduceCtorEq, false_and, exists_false]
  | ok value =>
      simp only [Except.ok.injEq, exists_eq_left']
      by_cases finite : value.isFinite
      · simp only [finite, if_true, true_and, Option.some.injEq]
        exact eq_comm
      · simp only [finite, if_false, reduceCtorEq, Bool.false_eq_true, false_and]

theorem equals_of_some {s : Session} {entry : Entry} (recorded : s.recorded? = some entry) :
    s.equals = ⟨entry.result, s.history ++ [entry], .input,
      (evaluate s.buffer : Evaluation Float).steps⟩ := by
  rcases (recorded_eq_some_iff s entry).mp recorded with ⟨value, outcome, finite, rfl⟩
  simp [equals, outcome, finite, succeed, History.record]

theorem equals_of_none {s : Session} (unrecorded : s.recorded? = none) :
    s.equals = ⟨[], s.history, .error, (evaluate s.buffer : Evaluation Float).steps⟩ := by
  unfold recorded? at unrecorded
  cases outcome : (evaluate s.buffer : Evaluation Float).outcome with
  | error error => simp [equals, outcome, fail]
  | ok value =>
      have infinite : ¬ value.isFinite := by
        intro finite
        simp [outcome, finite] at unrecorded
      simp [equals, outcome, infinite, fail]

theorem equals_history (s : Session) : s.equals.history = s.history ++ s.recorded?.toList := by
  cases recorded : s.recorded? with
  | none => simp [equals_of_none recorded]
  | some entry => simp [equals_of_some recorded]

theorem equals_lastSteps (s : Session) :
    s.equals.lastSteps = (evaluate s.buffer : Evaluation Float).steps := by
  cases recorded : s.recorded? with
  | none => simp [equals_of_none recorded]
  | some entry => simp [equals_of_some recorded]

theorem equals_error_iff (s : Session) : s.equals.display = .error ↔ s.recorded? = none := by
  cases recorded : s.recorded? with
  | none => simp [equals_of_none recorded]
  | some entry => simp [equals_of_some recorded]

theorem press_keeps (s : Session) (key : Key) (other : key ≠ .equals) (kept : key ≠ .clear) :
    (s.press key).history = s.history ∧ (s.press key).lastSteps = s.lastSteps := by
  cases key with
  | equals => exact absurd rfl other
  | clear => exact absurd rfl kept
  | digit c => exact ⟨rfl, rfl⟩
  | operator op => exact ⟨rfl, rfl⟩
  | percent => exact ⟨rfl, rfl⟩
  | backspace => exact ⟨rfl, rfl⟩

theorem press_input (s : Session) (key : Key) (other : key ≠ .equals) :
    (s.press key).display = .input := by
  cases key with
  | equals => exact absurd rfl other
  | clear => rfl
  | digit c => rfl
  | operator op => rfl
  | percent => rfl
  | backspace => rfl

theorem after_nil : after [] = {} := rfl

theorem after_append (keys : List Key) (key : Key) :
    after (keys ++ [key]) = (after keys).press key := by
  simp [after]

theorem equalsSinceClear_append (keys : List Key) (key : Key) :
    equalsSinceClear (keys ++ [key]) =
      if key = .clear then []
      else if key = .equals then equalsSinceClear keys ++ [keys.length] else equalsSinceClear keys := by
  have earlier : (List.range keys.length).filter (fun i =>
        (keys ++ [key])[i]? = some .equals ∧ .clear ∉ (keys ++ [key]).drop i) =
      if key = .clear then [] else equalsSinceClear keys := by
    by_cases cleared : key = .clear
    · rw [if_pos cleared, List.filter_eq_nil_iff]
      intro i member
      have bound := List.mem_range.mp member
      simp [List.drop_append_of_le_length (Nat.le_of_lt bound), cleared]
    · rw [if_neg cleared, equalsSinceClear]
      apply List.filter_congr
      intro i member
      have bound := List.mem_range.mp member
      simp [List.getElem?_append_left bound, List.drop_append_of_le_length (Nat.le_of_lt bound),
        Ne.symm cleared]
  rw [equalsSinceClear, List.length_append, List.length_singleton, List.range_succ,
    List.filter_append, earlier]
  cases key <;> simp

theorem lt_of_equalsSinceClear {keys : List Key} {i : Nat} (member : i ∈ equalsSinceClear keys) :
    i < keys.length :=
  List.mem_range.mp (List.mem_filter.mp member).1

theorem take_of_equalsSinceClear {keys : List Key} {i : Nat} (member : i ∈ equalsSinceClear keys)
    (key : Key) : (keys ++ [key]).take i = keys.take i :=
  List.take_append_of_le_length (Nat.le_of_lt (lt_of_equalsSinceClear member))

theorem history_after (keys : List Key) :
    (after keys).history = (equalsSinceClear keys).filterMap fun i => (after (keys.take i)).recorded? := by
  induction keys using List.reverseRecOn with
  | nil => rfl
  | append_singleton keys key ih =>
      have earlier : ((equalsSinceClear keys).filterMap fun i =>
          (after ((keys ++ [key]).take i)).recorded?) = (after keys).history := by
        rw [ih]
        apply List.filterMap_congr
        intro i member
        rw [take_of_equalsSinceClear member key]
      rw [after_append, equalsSinceClear_append]
      by_cases cleared : key = .clear
      · subst cleared
        rfl
      · by_cases pressed : key = .equals
        · subst pressed
          have last : ([keys.length].filterMap fun i =>
              (after ((keys ++ [Key.equals]).take i)).recorded?) = (after keys).recorded?.toList := by
            simp only [List.filterMap_cons, List.filterMap_nil, List.take_left]
            cases (after keys).recorded? <;> rfl
          rw [if_neg cleared, if_pos rfl, List.filterMap_append, earlier, last]
          exact equals_history (after keys)
        · rw [if_neg cleared, if_neg pressed, earlier]
          exact (press_keeps _ key pressed cleared).1

theorem lastSteps_after (keys : List Key) :
    (after keys).lastSteps = match (equalsSinceClear keys).getLast? with
      | some i => (evaluate (after (keys.take i)).buffer : Evaluation Float).steps
      | none => [] := by
  induction keys using List.reverseRecOn with
  | nil => rfl
  | append_singleton keys key ih =>
      rw [after_append, equalsSinceClear_append]
      by_cases cleared : key = .clear
      · subst cleared
        rfl
      · by_cases pressed : key = .equals
        · subst pressed
          rw [if_neg cleared, if_pos rfl, List.getLast?_concat]
          simp only [List.take_left]
          exact equals_lastSteps _
        · rw [if_neg cleared, if_neg pressed, (press_keeps _ key pressed cleared).2, ih]
          cases last : (equalsSinceClear keys).getLast? with
          | none => rfl
          | some i =>
              have member := List.mem_of_getLast? last
              simp only [take_of_equalsSinceClear member key]

theorem error_after_iff (keys : List Key) :
    (after keys).display = .error ↔
      ∃ before, keys = before ++ [.equals] ∧ (after before).recorded? = none := by
  induction keys using List.reverseRecOn with
  | nil => simp [after_nil]
  | append_singleton keys key _ =>
      rw [after_append]
      by_cases pressed : key = .equals
      · subst pressed
        change (after keys).equals.display = .error ↔ _
        rw [equals_error_iff]
        constructor
        · intro unrecorded
          exact ⟨keys, rfl, unrecorded⟩
        · intro last
          rcases last with ⟨before, same, unrecorded⟩
          rw [List.append_cancel_right same]
          exact unrecorded
      · rw [press_input _ key pressed]
        constructor
        · intro error
          cases error
        · intro last
          rcases last with ⟨before, same, _⟩
          exact absurd (List.append_inj_right' same rfl) (by simpa using pressed)

theorem error_empty {keys : List Key} (error : (after keys).display = .error) :
    (after keys).buffer = [] := by
  rcases (error_after_iff keys).mp error with ⟨before, rfl, unrecorded⟩
  rw [after_append]
  change (after before).equals.buffer = []
  rw [equals_of_none unrecorded]

end Calculator.Session
