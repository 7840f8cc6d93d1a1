import Mathlib.Data.List.Chain
import Calculator.Proofs.ResultText
import Calculator.Proofs.Scan
import Calculator.Proofs.SessionRun
import Calculator.Proofs.TypedKeys

namespace Calculator

/-- Characters that may stand side by side: not both are operators. -/
def Apart (c d : Char) : Prop := ¬ (Operator.isSymbol c ∧ Operator.isSymbol d)

structure Buffer.WellShaped (buffer : Buffer) : Prop where
  known : ∀ c ∈ buffer, Known c
  apart : buffer.IsChain Apart
  start : ∀ c ∈ buffer.head?, Operator.isSymbol c → c = '-'

namespace Buffer

theorem apart_left {c d : Char} (plain : ¬ Operator.isSymbol c) : Apart c d :=
  fun both => plain both.1

theorem apart_right {c d : Char} (plain : ¬ Operator.isSymbol d) : Apart c d :=
  fun both => plain both.2

namespace WellShaped

theorem nil : WellShaped [] := ⟨by simp, by simp, by simp⟩

theorem append {front back : Buffer} (shaped : WellShaped front) (known : ∀ c ∈ back, Known c)
    (apart : back.IsChain Apart) (seam : ∀ c ∈ front.getLast?, ∀ d ∈ back.head?, Apart c d)
    (start : front = [] → ∀ c ∈ back.head?, Operator.isSymbol c → c = '-') :
    WellShaped (front ++ back) where
  known := by
    intro c member
    exact (List.mem_append.mp member).elim (shaped.known c) (known c)
  apart := shaped.apart.append apart seam
  start := by
    cases front with
    | nil => exact start rfl
    | cons first front => exact shaped.start

theorem of_numeral {run : Text} (inside : ∀ c ∈ run, Decimal.isNumeralChar c) :
    WellShaped run := by
  have plain : ∀ c ∈ run, ¬ Operator.isSymbol c := fun c member =>
    Decimal.numeral_not_symbol (inside c member)
  refine ⟨fun c member => Or.inl (inside c member), ?_, ?_⟩
  · rw [List.isChain_iff_forall_rel_of_append_cons_cons]
    intro c d front back split
    have member : c ∈ run := by simp [split]
    exact apart_left (plain c member)
  · intro c first symbol
    exact absurd symbol (plain c (List.mem_of_mem_head? first))

theorem apart_symbol_run (op : Operator) {run : Text} (inside : ∀ c ∈ run, Decimal.isNumeralChar c) :
    (op.symbol :: run).IsChain Apart := by
  refine List.isChain_cons.mpr ⟨?_, (of_numeral inside).apart⟩
  intro c first
  have member : c ∈ run := List.mem_of_mem_head? first
  exact apart_right (Decimal.numeral_not_symbol (inside c member))

theorem digit {buffer : Buffer} {c : Char} (shaped : WellShaped buffer)
    (inside : Decimal.isNumeralChar c) : WellShaped (buffer.digit c) := by
  have one : WellShaped [c] := of_numeral (by simpa using inside)
  have plain := Decimal.numeral_not_symbol inside
  exact shaped.append one.known one.apart (by simpa using fun _ _ => apart_right plain)
    fun _ => one.start

theorem append_operator {buffer : Buffer} {run : Text} (shaped : WellShaped buffer) (op : Operator)
    (accepts : buffer.acceptsOperator) (inside : ∀ c ∈ run, Decimal.isNumeralChar c) :
    WellShaped (buffer ++ op.symbol :: run) := by
  rcases (Option.any_eq_true _ _).mp accepts with ⟨last, present, plain⟩
  apply shaped.append (known_symbol_run op inside) (apart_symbol_run op inside)
  · intro c found d _
    rw [present] at found
    cases found
    exact apart_left (by simpa using plain)
  · intro empty
    rw [empty] at present
    cases present

theorem operator {buffer : Buffer} (shaped : WellShaped buffer) (op : Operator) :
    WellShaped (buffer.operator op) := by
  unfold Buffer.operator
  split
  case isTrue accepts => exact shaped.append_operator op accepts (by simp)
  case isFalse => exact shaped

theorem percent {buffer : Buffer} (shaped : WellShaped buffer) : WellShaped buffer.percent := by
  unfold Buffer.percent
  split
  case isTrue accepts =>
    have hundred : ∀ c ∈ ['1', '0', '0'], Decimal.isNumeralChar c := by
      simp [Decimal.isNumeralChar]
    exact shaped.append_operator .div accepts hundred
  case isFalse => exact shaped

theorem backspace {buffer : Buffer} (shaped : WellShaped buffer) : WellShaped buffer.backspace where
  known c member := shaped.known c (List.dropLast_subset _ member)
  apart := shaped.apart.dropLast
  start := by
    intro c first
    apply shaped.start
    unfold Buffer.backspace at first
    cases buffer with
    | nil => cases first
    | cons head tail =>
        cases tail with
        | nil => cases first
        | cons next tail => exact first

theorem ofFloat {x : Float} (finite : x.isFinite) : WellShaped (Fixed.ofFloat x) := by
  rcases Fixed.ofFloat_finite finite with ⟨word, _, unsigned | ⟨_, signed⟩⟩
  · rw [unsigned]
    exact of_numeral (Fixed.unsigned_literal _).numeral
  · rw [signed]
    have inside := (Fixed.unsigned_literal (Fixed.millionths (Binary64.grains word))).numeral
    refine ⟨known_symbol_run .sub inside, apart_symbol_run .sub inside, ?_⟩
    intro c first _
    cases first
    rfl

end WellShaped

end Buffer

namespace Session

theorem recorded_shaped {s : Session} {entry : Entry} (recorded : s.recorded? = some entry) :
    Buffer.WellShaped entry.result := by
  rcases (recorded_eq_some_iff s entry).mp recorded with ⟨value, _, finite, rfl⟩
  exact .ofFloat finite

theorem press_shaped {s : Session} (shaped : s.buffer.WellShaped) {key : Key} (typed : key.Typed) :
    (s.press key).buffer.WellShaped := by
  cases key with
  | digit c => exact shaped.digit typed
  | operator op => exact shaped.operator op
  | percent => exact shaped.percent
  | backspace => exact shaped.backspace
  | clear => exact .nil
  | equals =>
      change s.equals.buffer.WellShaped
      cases recorded : s.recorded? with
      | none =>
          rw [equals_of_none recorded]
          exact .nil
      | some entry =>
          rw [equals_of_some recorded]
          exact recorded_shaped recorded

theorem after_shaped (keys : List Key) (typed : ∀ key ∈ keys, key.Typed) :
    (after keys).buffer.WellShaped := by
  induction keys using List.reverseRecOn with
  | nil => exact .nil
  | append_singleton keys key ih =>
      have earlier := ih fun key member => typed key (List.mem_append_left _ member)
      rw [after_append]
      exact press_shaped earlier (typed key (by simp))

end Session

end Calculator
