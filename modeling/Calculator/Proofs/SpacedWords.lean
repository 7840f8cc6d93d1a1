import Calculator.Proofs.TokenSpans
import Calculator.Proofs.WrappedLines

namespace Calculator

/-- A word that spacing leaves whole: it has no blank, and an operator is all of it. -/
structure Whole (word : Text) : Prop where
  nonempty : word ≠ []
  nonblank : ∀ c ∈ word, isBlank c = false
  alone : ∀ c ∈ word, Operator.isSymbol c → word = [c]

/-- Two characters that may follow each other: not both blank, and next to an operator is a space. -/
structure Loose (c next : Char) : Prop where
  single : ¬ (isBlank c ∧ isBlank next)
  before : Operator.isSymbol next → c = ' '
  after : Operator.isSymbol c → next = ' '

theorem symbol_nonblank {c : Char} (symbol : Operator.isSymbol c) : isBlank c = false := by
  obtain ⟨op, rfl⟩ := Operator.isSymbol_iff.mp symbol
  cases op <;> decide

theorem space_blank : isBlank ' ' = true := by decide

theorem mem_of_mem_words {text word : Text} (member : word ∈ text.words) : ∀ c ∈ word, c ∈ text := by
  intro c inside
  have kept : c ∈ text.words.flatten := List.mem_flatten.mpr ⟨word, member, inside⟩
  rw [Text.words_flatten] at kept
  exact List.mem_of_mem_filter kept

theorem alone_of_mem_words (text : Text) : ∀ plain : Text, (∀ c ∈ plain, ¬ Operator.isSymbol c) →
    ∀ word ∈ Text.words (plain ++ text.flatMap loosen), ∀ c ∈ word,
      Operator.isSymbol c → word = [c] := by
  induction text with
  | nil =>
      intro plain others word member c inside symbol
      rw [List.flatMap_nil, List.append_nil] at member
      exact absurd symbol (others c (mem_of_mem_words member c inside))
  | cons d rest ih =>
      intro plain others word member c inside symbol
      by_cases operator : Operator.isSymbol d
      · have parts : Text.words (plain ++ (d :: rest).flatMap loosen) =
            Text.words plain ++ [d] :: Text.words (rest.flatMap loosen) := by
          rw [List.flatMap_cons, loosen, if_pos operator]
          calc
            Text.words (plain ++ ' ' :: ([d] ++ ' ' :: rest.flatMap loosen)) =
                Text.words plain ++ Text.words ([d] ++ ' ' :: rest.flatMap loosen) :=
              Text.words_append_blank space_blank _ _
            _ = Text.words plain ++ [d] :: Text.words (' ' :: rest.flatMap loosen) := by
              rw [Text.words_append (List.cons_ne_nil _ _)]
              · exact List.forall_mem_singleton.mpr (symbol_nonblank operator)
              · rintro e ⟨⟩
                exact space_blank
            _ = Text.words plain ++ [d] :: Text.words (rest.flatMap loosen) := by
              rw [Text.words_cons_blank space_blank]
        rw [parts, List.mem_append, List.mem_cons] at member
        rcases member with early | rfl | late
        · exact absurd symbol (others c (mem_of_mem_words early c inside))
        · rw [List.mem_singleton.mp inside]
        · exact ih [] (List.forall_mem_nil _) word late c inside symbol
      · have longer : plain ++ (d :: rest).flatMap loosen = (plain ++ [d]) ++ rest.flatMap loosen := by
          rw [List.flatMap_cons, loosen, if_neg operator, List.append_assoc]
        rw [longer] at member
        have extended : ∀ e ∈ plain ++ [d], ¬ Operator.isSymbol e :=
          List.forall_mem_append.mpr ⟨others, List.forall_mem_singleton.mpr operator⟩
        exact ih _ extended word member c inside symbol

theorem whole_of_mem_words (text : Text) : ∀ word ∈ Text.words (text.flatMap loosen), Whole word := by
  intro word member
  obtain ⟨nonempty, nonblank⟩ := Text.words_nonblank member
  exact ⟨nonempty, nonblank, alone_of_mem_words text [] (List.forall_mem_nil _) word member⟩

namespace Whole

variable {word : Text} (whole : Whole word)
include whole

theorem trimmed : Text.Trimmed word := .of_nonblank whole.nonempty whole.nonblank

theorem symbol_or_plain :
    (∃ c, word = [c] ∧ Operator.isSymbol c) ∨ ∀ c ∈ word, ¬ Operator.isSymbol c := by
  by_cases plain : ∀ c ∈ word, ¬ Operator.isSymbol c
  · exact Or.inr plain
  · push Not at plain
    obtain ⟨c, inside, symbol⟩ := plain
    exact Or.inl ⟨c, whole.alone c inside symbol, symbol⟩

theorem words_loosen {rest : Text} (blank : ∀ c ∈ rest.head?, isBlank c = true) :
    Text.words (word.flatMap loosen ++ rest) = word :: Text.words rest := by
  rcases whole.symbol_or_plain with ⟨c, rfl, symbol⟩ | plain
  · have spread : [c].flatMap loosen ++ rest = ' ' :: ([c] ++ ' ' :: rest) := by
      rw [List.flatMap_singleton, loosen, if_pos symbol]
      rfl
    rw [spread, Text.words_cons_blank space_blank,
      Text.words_append whole.nonempty whole.nonblank (by rintro d ⟨⟩; exact space_blank),
      Text.words_cons_blank space_blank]
  · rw [loosen_plain plain, Text.words_append whole.nonempty whole.nonblank blank]

theorem chain : word.IsChain Loose := by
  rcases whole.symbol_or_plain with ⟨c, rfl, _⟩ | plain
  · exact List.isChain_singleton c
  · apply List.Pairwise.isChain
    apply List.pairwise_of_forall_mem_list
    intro c first next second
    exact ⟨fun both => by simp [whole.nonblank c first] at both,
      fun symbol => absurd symbol (plain next second), fun symbol => absurd symbol (plain c first)⟩

end Whole

namespace Loose

variable {c : Char} (nonblank : isBlank c = false)
include nonblank

theorem space_after : Loose c ' ' where
  single both := by simp [nonblank] at both
  before symbol := absurd symbol (by decide)
  after _ := rfl

theorem space_before : Loose ' ' c where
  single both := by simp [nonblank] at both
  before _ := rfl
  after symbol := absurd symbol (by decide)

end Loose

section

variable {words : List Text} (whole : ∀ word ∈ words, Whole word)
include whole

theorem words_loosen_joined : Text.words ((Text.joined words).flatMap loosen) = words := by
  induction words with
  | nil => rfl
  | cons word rest ih =>
      obtain ⟨first, others⟩ := List.forall_mem_cons.mp whole
      by_cases last : rest = []
      · rw [last, Text.joined_singleton]
        have alone : Text.words (word.flatMap loosen ++ []) = [word] := first.words_loosen (by simp)
        rw [List.append_nil] at alone
        exact alone
      · have gap : loosen ' ' = [' '] := by decide
        rw [Text.joined_cons last, List.flatMap_append, List.flatMap_cons, gap, List.singleton_append,
          first.words_loosen (by rintro c ⟨⟩; exact space_blank),
          Text.words_cons_blank space_blank, ih others]

theorem words_joined : Text.words (Text.joined words) = words := by
  induction words with
  | nil => rfl
  | cons word rest ih =>
      obtain ⟨first, others⟩ := List.forall_mem_cons.mp whole
      by_cases last : rest = []
      · rw [last, Text.joined_singleton, Text.words_word first.nonempty first.nonblank]
      · rw [Text.joined_cons last, Text.words_append first.nonempty first.nonblank
          (by rintro c ⟨⟩; exact space_blank), Text.words_cons_blank space_blank, ih others]

theorem spaced_joined : spaced (Text.joined words) = Text.joined words := by
  rw [spaced, words_loosen_joined whole]
  rfl

theorem joined_chain : (Text.joined words).IsChain Loose := by
  induction words with
  | nil => exact List.isChain_nil
  | cons word rest ih =>
      obtain ⟨first, others⟩ := List.forall_mem_cons.mp whole
      by_cases last : rest = []
      · rw [last, Text.joined_singleton]
        exact first.chain
      · have later : Text.Trimmed (Text.joined rest) :=
          Text.joined_trimmed last fun word member => (others word member).trimmed
        rw [Text.joined_cons last, List.isChain_append, List.isChain_cons]
        refine ⟨first.chain, ⟨fun c head => Loose.space_before (later.first c head), ih others⟩, ?_⟩
        rintro c final _ ⟨⟩
        exact Loose.space_after (first.trimmed.last c final)

theorem joined_blank : ∀ c ∈ Text.joined words, isBlank c = true → c = ' ' := by
  induction words with
  | nil => exact fun c inside => absurd inside List.not_mem_nil
  | cons word rest ih =>
      intro c inside blank
      obtain ⟨first, others⟩ := List.forall_mem_cons.mp whole
      have solid : c ∉ word := fun own => by simp [first.nonblank c own] at blank
      by_cases last : rest = []
      · rw [last, Text.joined_singleton] at inside
        exact absurd inside solid
      · rw [Text.joined_cons last, List.mem_append, List.mem_cons] at inside
        rcases inside with own | same | later
        · exact absurd own solid
        · exact same
        · exact ih others c later blank

end

/-- The spaced form of a text has the text's characters but for blanks. Its blanks are single spaces
inside it, on both sides of every operator, and it is its own spaced form. -/
theorem spaced_laws (text : Text) :
    (spaced text).filter (!isBlank ·) = text.filter (!isBlank ·) ∧
      (∀ c ∈ (spaced text).head?, isBlank c = false) ∧
      (∀ c ∈ (spaced text).getLast?, isBlank c = false) ∧
      (∀ c ∈ spaced text, isBlank c = true → c = ' ') ∧
      (spaced text).IsChain Loose ∧
      (∀ word ∈ Text.words (spaced text), ∀ c ∈ word, Operator.isSymbol c → word = [c]) ∧
      spaced (spaced text) = spaced text := by
  have whole := whole_of_mem_words text
  have form : spaced text = Text.joined (Text.words (text.flatMap loosen)) := rfl
  refine ⟨spaced_filter text, ?_, ?_, ?_, ?_, ?_, ?_⟩
  all_goals rw [form]
  · by_cases none : Text.words (text.flatMap loosen) = []
    · rw [none]
      exact fun c head => nomatch head
    · exact (Text.joined_trimmed none fun word member => (whole word member).trimmed).first
  · by_cases none : Text.words (text.flatMap loosen) = []
    · rw [none]
      exact fun c last => nomatch last
    · exact (Text.joined_trimmed none fun word member => (whole word member).trimmed).last
  · exact joined_blank whole
  · exact joined_chain whole
  · rw [words_joined whole]
    exact fun word member => (whole word member).alone
  · exact spaced_joined whole

end Calculator
