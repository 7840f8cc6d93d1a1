import Calculator.Proofs.Literal

/-! What the scan makes of a text.

`Reads` says which tokens a text has without computing them: runs of digits and points are taken
whole, every operator is a token, and the first other character is the last token. The scan of a
text is such a reading and the only one. It can be cut wherever no run is cut, and every token lies in
the text as `Cut` says. -/

namespace Calculator

def Known (c : Char) : Prop := Decimal.isNumeralChar c ∨ Operator.isSymbol c

theorem known_iff {c : Char} : Known c ↔ Decimal.isNumeralChar c ∨ Operator.ofChar? c ≠ none := by
  simp [Known, Operator.isSymbol, Option.isSome_iff_ne_none]

theorem known_symbol (op : Operator) : Known op.symbol :=
  Or.inr (Operator.isSymbol_iff.mpr ⟨op, rfl⟩)

theorem known_of_all {text : Text}
    (all : text.all fun c => Decimal.isNumeralChar c || Operator.isSymbol c) :
    ∀ c ∈ text, Known c := fun c member =>
  Bool.or_eq_true_iff.mp (List.all_eq_true.mp all c member)

theorem known_symbol_run (op : Operator) {run : Text} (inside : ∀ c ∈ run, Decimal.isNumeralChar c) :
    ∀ c ∈ op.symbol :: run, Known c := by
  intro c member
  rcases List.mem_cons.mp member with same | later
  · rw [same]
    exact known_symbol op
  · exact Or.inl (inside c later)

/-- Characters are known and every maximal run is a literal. -/
structure Lexical (text : Text) : Prop where
  known : ∀ c ∈ text, Known c
  runs : ∀ front run back, text = front ++ run ++ back → MaximalRun front run back → IsLiteral run

namespace Token

inductive Reads : Text → List Token → Prop
  | done : Reads [] []
  | numeral {run rest : Text} {tokens : List Token} (maximal : MaximalRun [] run rest)
      (tail : Reads rest tokens) : Reads (run ++ rest) (numeral run :: tokens)
  | operator {rest : Text} {tokens : List Token} (op : Operator) (tail : Reads rest tokens) :
      Reads (op.symbol :: rest) (operator op :: tokens)
  | unexpected {c : Char} (rest : Text) (unknown : ¬ Known c) : Reads (c :: rest) [unexpected c]

theorem scan_symbol (op : Operator) (rest : Text) :
    scan (op.symbol :: rest) = operator op :: scan rest := by
  simp [scan, Decimal.symbol_not_numeral]

theorem scan_unexpected (c : Char) (rest : Text) (unknown : ¬ Known c) :
    scan (c :: rest) = [unexpected c] := by
  rcases not_or.mp (known_iff.not.mp unknown) with ⟨outside, none⟩
  simp [scan, outside, not_not.mp none]

theorem scan_numeral (c : Char) (rest : Text) (inside : Decimal.isNumeralChar c) :
    scan (c :: rest) = consNumeral c (scan rest) := by
  simp [scan, inside]

theorem scan_run (run : Text) (nonempty : run ≠ []) (inside : ∀ c ∈ run, Decimal.isNumeralChar c) :
    scan run = [numeral run] := by
  induction run with
  | nil => exact absurd rfl nonempty
  | cons c tail ih =>
      rw [scan_numeral c tail (inside c (by simp))]
      cases tail with
      | nil => rfl
      | cons next tail =>
          rw [ih (by simp) (fun d member => inside d (List.mem_cons_of_mem _ member))]
          rfl

theorem consNumeral_append (c : Char) (front back : List Token) (nonempty : front ≠ []) :
    consNumeral c (front ++ back) = consNumeral c front ++ back := by
  cases front with
  | nil => exact absurd rfl nonempty
  | cons token tail => cases token <;> rfl

theorem consNumeral_scan (c : Char) (rest : Text)
    (apart : ∀ d ∈ rest.head?, ¬ Decimal.isNumeralChar d) :
    consNumeral c (scan rest) = numeral [c] :: scan rest := by
  cases rest with
  | nil => rfl
  | cons d tail =>
      have outside : ¬ Decimal.isNumeralChar d := apart d rfl
      cases found : Operator.ofChar? d <;> simp [scan, outside, found, consNumeral]

theorem scan_ne_nil (text : Text) (nonempty : text ≠ []) : scan text ≠ [] := by
  cases text with
  | nil => exact absurd rfl nonempty
  | cons c tail =>
      by_cases inside : Decimal.isNumeralChar c
      · rw [scan_numeral c tail inside]
        cases scan tail with
        | nil => simp [consNumeral]
        | cons token tokens => cases token <;> simp [consNumeral]
      · cases found : Operator.ofChar? c <;> simp [scan, inside, found]

/-- A scan falls into the scans of two parts unless a run crosses from one into the other. -/
theorem scan_append (front back : Text) (known : ∀ c ∈ front, Known c)
    (apart : (∀ c ∈ front.getLast?, ¬ Decimal.isNumeralChar c) ∨
      ∀ c ∈ back.head?, ¬ Decimal.isNumeralChar c) :
    scan (front ++ back) = scan front ++ scan back := by
  induction front with
  | nil => rfl
  | cons c tail ih =>
      have rest := fun kept =>
        ih (fun d member => known d (List.mem_cons_of_mem _ member)) kept
      rcases known c (by simp) with inside | symbol
      · rw [List.cons_append, scan_numeral c _ inside, scan_numeral c tail inside]
        cases tail with
        | nil =>
            have free := apart.resolve_left fun outside => outside c rfl inside
            exact consNumeral_scan c back free
        | cons next tail =>
            rw [rest (by simpa using apart)]
            exact consNumeral_append c _ _ (scan_ne_nil _ (by simp))
      · rcases Operator.isSymbol_iff.mp symbol with ⟨op, rfl⟩
        rw [List.cons_append, scan_symbol, scan_symbol, List.cons_append]
        cases tail with
        | nil => rfl
        | cons next tail => rw [rest (by simpa using apart)]

theorem scan_run_append (run rest : Text) (nonempty : run ≠ [])
    (inside : ∀ c ∈ run, Decimal.isNumeralChar c)
    (apart : ∀ c ∈ rest.head?, ¬ Decimal.isNumeralChar c) :
    scan (run ++ rest) = numeral run :: scan rest := by
  rw [scan_append run rest (fun c member => Or.inl (inside c member)) (Or.inr apart),
    scan_run run nonempty inside]
  rfl

theorem reads_scan (text : Text) : Reads text (scan text) := by
  induction text with
  | nil => exact .done
  | cons c rest ih =>
      by_cases inside : Decimal.isNumeralChar c
      · rw [scan_numeral c rest inside]
        -- the token after `c` decides whether `c` opens a run or joins one
        generalize scan rest = tokens at ih
        have single : ∀ tail, (∀ d ∈ tail.head?, ¬ Decimal.isNumeralChar d) →
            MaximalRun [] [c] tail := fun tail ends =>
          ⟨by simp, by simpa using inside, by simp, ends⟩
        cases ih with
        | done =>
            change Reads ([c] ++ []) [numeral [c]]
            exact .numeral (single [] (by simp)) .done
        | @numeral run rest tokens maximal tail =>
            have longer : MaximalRun [] (c :: run) rest :=
              ⟨by simp, by simpa [inside] using maximal.numeral, by simp, maximal.ends⟩
            exact .numeral longer tail
        | operator op tail =>
            have ends := Decimal.symbol_not_numeral op
            exact .numeral (single _ (by simpa using ends)) (.operator op tail)
        | unexpected rest unknown =>
            have ends := (not_or.mp unknown).1
            exact .numeral (single _ (by simpa using ends)) (.unexpected rest unknown)
      · by_cases known : Known c
        · rcases Operator.isSymbol_iff.mp (known.resolve_left inside) with ⟨op, rfl⟩
          rw [scan_symbol]
          exact .operator op ih
        · rw [scan_unexpected c rest known]
          exact .unexpected rest known

theorem Reads.eq_scan {text : Text} {tokens : List Token} (reads : Reads text tokens) :
    tokens = scan text := by
  induction reads with
  | done => rfl
  | numeral maximal tail ih =>
      rw [scan_run_append _ _ maximal.nonempty maximal.numeral maximal.ends, ih]
  | operator op tail ih => rw [scan_symbol, ih]
  | unexpected rest unknown => exact (scan_unexpected _ rest unknown).symm

theorem Reads.texts {text : Text} {tokens : List Token} (reads : Reads text tokens)
    (known : ∀ c ∈ text, Known c) : tokens.flatMap Token.text = text := by
  induction reads with
  | done => rfl
  | numeral maximal tail ih =>
      rw [List.flatMap_cons, ih (List.forall_mem_append.mp known).2]
      rfl
  | operator op tail ih =>
      rw [List.flatMap_cons, ih (List.forall_mem_cons.mp known).2]
      rfl
  | unexpected rest unknown => exact absurd (known _ List.mem_cons_self) unknown

theorem scan_append_unexpected (front back : Text) {c : Char} (known : ∀ d ∈ front, Known d)
    (unknown : ¬ Known c) : scan (front ++ c :: back) = scan front ++ [unexpected c] := by
  have outside := (not_or.mp unknown).1
  rw [scan_append front _ known (Or.inr (by simpa using outside)), scan_unexpected c back unknown]

/-- How a token lies between the text before it and the text behind it, and which tokens follow. -/
inductive Cut (front : Text) : Token → Text → List Token → Prop
  | numeral {run back : Text} (maximal : MaximalRun front run back) :
      Cut front (numeral run) back (scan back)
  | operator (op : Operator) (back : Text) : Cut front (operator op) back (scan back)
  | unexpected {c : Char} (back : Text) (unknown : ¬ Known c) : Cut front (unexpected c) back []

theorem Cut.extend {head front back : Text} {token : Token} {after : List Token}
    (cut : Cut front token back after)
    (apart : (∀ c ∈ head.getLast?, ¬ Decimal.isNumeralChar c) ∨
      ∀ c ∈ (front ++ token.text ++ back).head?, ¬ Decimal.isNumeralChar c) :
    Cut (head ++ front) token back after := by
  cases cut with
  | numeral maximal => exact .numeral (maximal.extend apart)
  | operator op back => exact .operator op back
  | unexpected back unknown => exact .unexpected back unknown

theorem Reads.cut {text : Text} {tokens before after : List Token} {token : Token}
    (reads : Reads text tokens) (split : tokens = before ++ token :: after) :
    ∃ back, text = before.flatMap Token.text ++ token.text ++ back ∧
      Cut (before.flatMap Token.text) token back after := by
  -- the first token is cut off here, the others further on, in a text that it leaves apart
  induction reads generalizing before with
  | done => cases before <;> cases split
  | @numeral run rest tokens found tail ih =>
      cases before with
      | nil =>
          cases split
          refine ⟨rest, rfl, ?_⟩
          rw [tail.eq_scan]
          exact .numeral found
      | cons first before =>
          obtain ⟨rfl, later⟩ := List.cons.inj split
          obtain ⟨back, rfl, cut⟩ := ih later
          refine ⟨back, ?_, cut.extend (Or.inr found.ends)⟩
          simp only [List.flatMap_cons, List.append_assoc, Token.text]
  | @operator rest tokens op tail ih =>
      cases before with
      | nil =>
          cases split
          refine ⟨rest, rfl, ?_⟩
          rw [tail.eq_scan]
          exact .operator op rest
      | cons first before =>
          obtain ⟨rfl, later⟩ := List.cons.inj split
          obtain ⟨back, rfl, cut⟩ := ih later
          refine ⟨back, ?_, cut.extend (Or.inl ?_)⟩
          · simp only [List.flatMap_cons, List.append_assoc, Token.text, List.cons_append,
              List.nil_append]
          · rintro c ⟨⟩
            exact Decimal.symbol_not_numeral op
  | @unexpected c rest unknown =>
      cases before with
      | nil =>
          cases split
          exact ⟨rest, rfl, .unexpected rest unknown⟩
      | cons first before => cases before <;> cases split

end Token

end Calculator
