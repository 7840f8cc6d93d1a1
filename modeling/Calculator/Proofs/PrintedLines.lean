import Mathlib.Data.Bool.AllAny
import Mathlib.Data.List.Basic
import Mathlib.Tactic.SplitIfs
import Calculator.Proofs.BufferShape

namespace Calculator

namespace Text

/-- The lines of a text with the line feeds that end them; the last line may be without. -/
def lines : Text → List Text
  | [] => []
  | c :: rest =>
    if c = '\n' then [c] :: lines rest
    else match lines rest with
      | [] => [[c]]
      | line :: more => (c :: line) :: more

/-- A line feed ends the text and stands nowhere else in it. -/
def IsLine (text : Text) : Prop := ∃ body, text = body ++ ['\n'] ∧ '\n' ∉ body

theorem lines_flatten (text : Text) : (lines text).flatten = text := by
  induction text with
  | nil => rfl
  | cons c rest ih =>
      rw [lines]
      split_ifs with feed
      · rw [List.flatten_cons, ih, List.singleton_append]
      · cases found : lines rest with
        | nil =>
            rw [found] at ih
            rw [← ih]
            rfl
        | cons line more =>
            rw [found] at ih
            exact congrArg (c :: ·) ih

theorem isLine_of_mem_lines {text : Text} (closed : text.getLast? = some '\n') :
    ∀ line ∈ lines text, IsLine line := by
  induction text with
  | nil => cases closed
  | cons c rest ih =>
      rw [lines]
      have single : IsLine ['\n'] := ⟨[], rfl, List.not_mem_nil⟩
      by_cases empty : rest = []
      · subst empty
        cases Option.some.inj closed
        exact List.forall_mem_cons.mpr ⟨single, List.forall_mem_nil _⟩
      · have later := ih (by rwa [List.getLast?_cons_of_ne_nil empty] at closed)
        split_ifs with feed
        · exact List.forall_mem_cons.mpr ⟨feed ▸ single, later⟩
        · cases found : lines rest with
          | nil =>
              rw [← lines_flatten rest, found] at empty
              exact absurd rfl empty
          | cons line more =>
              rw [found] at later
              obtain ⟨⟨body, same, inside⟩, others⟩ := List.forall_mem_cons.mp later
              refine List.forall_mem_cons.mpr ⟨⟨c :: body, by rw [same]; rfl, ?_⟩, others⟩
              simpa [inside] using Ne.symm feed

theorem lines_append {line : Text} (whole : IsLine line) (rest : Text) :
    lines (line ++ rest) = line :: lines rest := by
  obtain ⟨body, rfl, inside⟩ := whole
  induction body with
  | nil => rfl
  | cons c body ih =>
      have other : c ≠ '\n' := fun feed => inside (feed ▸ List.mem_cons_self)
      have later := ih fun member => inside (List.mem_cons_of_mem _ member)
      rw [List.cons_append, List.cons_append, lines, if_neg other, later]

theorem lines_flatten_append {texts : List Text} (whole : ∀ line ∈ texts, IsLine line) (rest : Text) :
    lines (texts.flatten ++ rest) = texts ++ lines rest := by
  induction texts with
  | nil => rfl
  | cons line texts ih =>
      obtain ⟨first, others⟩ := List.forall_mem_cons.mp whole
      rw [List.flatten_cons, List.append_assoc, lines_append first, ih others]
      rfl

end Text

/-- The characters of numbers, expressions and equations as they are written. -/
def Written (c : Char) : Prop := c.isDigit ∨ c ∈ ".+-*/^ =infNa".toList

instance : DecidablePred Written := fun c => inferInstanceAs (Decidable (c.isDigit ∨ c ∈ _))

theorem written_text {text : Text} (all : text.all fun c => Written c) : ∀ c ∈ text, Written c :=
  List.all_iff_forall_prop.mp all

theorem written_symbol (op : Operator) : Written op.symbol := by
  cases op <;> decide

theorem written_known {c : Char} (known : Known c) : Written c := by
  rcases known with numeral | symbol
  · rcases Decimal.isNumeralChar_iff.mp numeral with digit | rfl
    · exact Or.inl digit
    · decide
  · obtain ⟨op, rfl⟩ := Operator.isSymbol_iff.mp symbol
    exact written_symbol op

theorem written_ofNat (n : Nat) : ∀ c ∈ Text.ofNat n, Written c := fun c member =>
  Or.inl (Fixed.whole_digits n c member)

namespace Fixed

theorem written_unsigned (n : Nat) : ∀ c ∈ unsigned n, Written c := fun c member =>
  written_known (Or.inl ((unsigned_literal n).numeral c member))

theorem written (x : Float) : ∀ c ∈ ofFloat x, Written c := by
  unfold ofFloat ofValue
  split
  · exact written_text (by decide)
  · split <;> exact written_text (by decide)
  · dsimp only
    split
    · exact List.forall_mem_cons.mpr ⟨by decide, written_unsigned _⟩
    · exact written_unsigned _

end Fixed

namespace Shortest

theorem trimZeros_subset (digits : Text) : trimZeros digits ⊆ digits := by
  intro c member
  have kept := (List.dropWhile_sublist _).subset (List.mem_reverse.mp member)
  exact List.mem_reverse.mp kept

theorem written_found {tried : Nat → Option Digits}
    (inside : ∀ count, ∀ d ∈ tried count, ∀ c ∈ d.digits, Written c) (counts : List Nat) :
    ∀ c ∈ ((counts.findSome? tried).getD ⟨['0'], 0⟩).digits, Written c := by
  cases found : counts.findSome? tried with
  | none => exact written_text (by decide)
  | some d =>
      obtain ⟨count, _, hit⟩ := List.exists_of_findSome?_eq_some found
      exact inside count d hit

theorem written_ofGrains (grains : Nat) : ∀ c ∈ (ofGrains grains).digits, Written c := by
  unfold ofGrains
  refine written_found ?_ _
  intro count d hit
  obtain ⟨n, _, rfl⟩ := Option.map_eq_some_iff.mp hit
  exact fun c member => written_ofNat n c (trimZeros_subset _ member)

theorem written_plain {d : Digits} (digits : ∀ c ∈ d.digits, Written c) :
    ∀ c ∈ d.plain, Written c := by
  have zeros (n : Nat) : ∀ c ∈ List.replicate n '0', Written c := by
    intro c member
    rw [List.eq_of_mem_replicate member]
    decide
  unfold Digits.plain
  dsimp only
  split_ifs
  · exact List.forall_mem_append.mpr
      ⟨List.forall_mem_append.mpr ⟨written_text (by decide), zeros _⟩, digits⟩
  · exact List.forall_mem_append.mpr ⟨digits, zeros _⟩
  · refine List.forall_mem_append.mpr ⟨fun c member => digits c (List.mem_of_mem_take member), ?_⟩
    exact List.forall_mem_cons.mpr ⟨by decide, fun c member => digits c (List.mem_of_mem_drop member)⟩

theorem written_signed (negative : Bool) {text : Text} (inside : ∀ c ∈ text, Written c) :
    ∀ c ∈ signed negative text, Written c := by
  cases negative with
  | false => exact inside
  | true => exact List.forall_mem_cons.mpr ⟨by decide, inside⟩

theorem written (x : Float) : ∀ c ∈ plain x, Written c := by
  unfold plain plainValue
  split
  · exact written_text (by decide)
  · exact written_signed _ (written_text (by decide))
  · exact written_signed _ (written_text (by decide))
  · exact written_signed _ (written_plain (written_ofGrains _))

end Shortest

theorem Step.written_equation (step : Step Float) : ∀ c ∈ step.equation, Written c := by
  refine List.forall_mem_append.mpr ⟨List.forall_mem_append.mpr ⟨List.forall_mem_append.mpr ⟨?_, ?_⟩,
    written_text (by decide)⟩, Fixed.written _⟩
  · exact Shortest.written step.left
  · exact List.forall_mem_cons.mpr ⟨by decide, List.forall_mem_cons.mpr ⟨written_symbol _,
      List.forall_mem_cons.mpr ⟨by decide, Shortest.written step.right⟩⟩⟩

theorem Session.written_recorded {keys : List Key} (typed : ∀ key ∈ keys, key.Typed) {entry : Entry}
    (recorded : (after keys).recorded? = some entry) : ∀ c ∈ entry.text, Written c := by
  obtain ⟨value, _, _, rfl⟩ := (recorded_eq_some_iff _ entry).mp recorded
  exact List.forall_mem_append.mpr ⟨List.forall_mem_append.mpr
    ⟨fun c member => written_known ((after_shaped keys typed).known c member),
      written_text (by decide)⟩, Fixed.written value⟩

end Calculator
