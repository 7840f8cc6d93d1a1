import Mathlib.Data.List.DropRight
import Calculator.Proofs.FrontEnds
import Calculator.Proofs.PrintedLines

/-! What a session on a line prints.

Each equals press ends a line with the prompt and writes one of its own; a clear ends a line as well,
and other keys go on in the line they are in. Told as a page of lines, the output since the last clear
holds the history, and the lines for the steps can be taken out of it without a trace. -/

namespace Calculator

theorem Session.shown_recorded {keys : List Key} {entry : Entry}
    (recorded : (after keys).recorded? = some entry) : (after keys).shown = entry.expression := by
  obtain ⟨value, outcome, _, rfl⟩ := (recorded_eq_some_iff _ entry).mp recorded
  cases display : (after keys).display with
  | input => simp [shown, display]
  | error =>
      rw [error_empty display] at outcome
      cases outcome

theorem Session.written_shown {keys : List Key} (typed : ∀ key ∈ keys, key.Typed) :
    ∀ c ∈ (after keys).shown, Written c ∨ c ∈ "Error".toList := by
  intro c member
  unfold shown at member
  split at member
  · exact Or.inl (written_known ((after_shaped keys typed).known c member))
  · exact Or.inr member

namespace LineMode

def promptText (shown : Text) : Text := "\r\x1B[2KExpression: ".toList ++ shown

/-- The line that an equals press writes when it records nothing. -/
def errorLine : Text := "  Error\r\n".toList

def recordLine (entry : Entry) : Text :=
  "  ".toList ++ entry.expression ++ " = ".toList ++ entry.result ++ "\r\n".toList

/-- The line of the `i`-th step, counted from zero: its operands in full, what it gives as results
are shown. -/
def stepLine (i : Nat) (step : Step Float) : Text :=
  "    Step ".toList ++ Nat.toDigits 10 (i + 1) ++ ": ".toList ++ Shortest.plain step.left ++
    [' ', step.op.symbol, ' '] ++ Shortest.plain step.right ++ " = ".toList ++
    Fixed.ofFloat step.result ++ "\r\n".toList

def IsStep (line : Text) : Prop := "    Step ".toList <+: line

def IsRecord (line : Text) : Prop := "  ".toList <+: line ∧ ¬ IsStep line ∧ line ≠ errorLine

def IsClear (line : Text) : Prop := "History cleared\r\n".toList <:+ line

instance : DecidablePred IsStep := fun line => inferInstanceAs (Decidable (_ <+: line))

instance : DecidablePred IsRecord := fun line =>
  inferInstanceAs (Decidable ("  ".toList <+: line ∧ ¬ IsStep line ∧ line ≠ _))

instance : DecidablePred IsClear := fun line => inferInstanceAs (Decidable (_ <:+ line))

theorem prompt_eq (s : Session) : prompt s = promptText s.shown := rfl

theorem recordLine_eq (entry : Entry) : recordLine entry = "  ".toList ++ entry.text ++ newline := by
  simp [recordLine, Entry.text, newline]

theorem stepLine_eq (i : Nat) (step : Step Float) :
    stepLine i step = "    ".toList ++ ("Step ".toList ++ Text.ofNat (i + 1) ++ ": ".toList ++
      step.equation) ++ newline := by
  have label : "    Step ".toList = "    ".toList ++ "Step ".toList := by decide
  have ending : "\r\n".toList = newline := by decide
  unfold stepLine Text.ofNat Step.equation Step.operation
  rw [label, ending]
  simp only [List.append_assoc, List.cons_append, List.nil_append]

theorem detailLines_eq (s : Session) : detailLines s = s.lastSteps.mapIdx stepLine := by
  apply List.ext_getElem
  · simp [detailLines, Step.listing]
  · intro i inside bound
    rw [List.getElem_mapIdx, stepLine_eq]
    simp only [detailLines, Step.listing, List.getElem_map, List.getElem_mapIdx]

def recordsSinceClear (lines : List Text) : List Text :=
  (lines.rtakeWhile fun line => ¬ IsClear line).filter fun line => IsRecord line

theorem recordsSinceClear_clear (earlier : List Text) {line : Text} (clear : IsClear line) :
    recordsSinceClear (earlier ++ [line]) = [] := by
  rw [recordsSinceClear, List.rtakeWhile_concat_neg _ _ _ (by simpa using clear)]
  rfl

theorem recordsSinceClear_append (earlier : List Text) {lines : List Text}
    (kept : ∀ line ∈ lines, ¬ IsClear line) :
    recordsSinceClear (earlier ++ lines) =
      recordsSinceClear earlier ++ lines.filter fun line => IsRecord line := by
  induction lines using List.reverseRecOn with
  | nil => simp
  | append_singleton lines line ih =>
      obtain ⟨others, last⟩ := List.forall_mem_append.mp kept
      have taken : recordsSinceClear (earlier ++ lines ++ [line]) =
          recordsSinceClear (earlier ++ lines) ++ [line].filter fun line => IsRecord line := by
        rw [recordsSinceClear, List.rtakeWhile_concat_pos _ _ _ (by simpa using last),
          List.filter_append]
        rfl
      rw [← List.append_assoc, taken, ih others, List.append_assoc, ← List.filter_append]

theorem not_isClear_of_not_mem {line : Text} (absent : 'd' ∉ line) : ¬ IsClear line := fun clear =>
  absent (clear.subset (by decide))

theorem not_isStep_of_not_mem {line : Text} (absent : 'S' ∉ line) : ¬ IsStep line := fun step =>
  absent (step.subset (by decide))

section

variable {entry : Entry} (written : ∀ c ∈ entry.text, Written c)

include written

theorem recordLine_inside : ∀ c ∈ recordLine entry, Written c ∨ c ∈ newline := by
  intro c member
  rw [recordLine_eq] at member
  rcases List.mem_append.mp member with front | ending
  · exact Or.inl (List.forall_mem_append.mpr ⟨written_text (by decide), written⟩ c front)
  · exact Or.inr ending

theorem recordLine_isLine : Text.IsLine (recordLine entry) := by
  refine ⟨"  ".toList ++ entry.text ++ ['\r'], by simp [recordLine_eq, newline], ?_⟩
  have apart : ∀ c ∈ entry.text, c ≠ '\n' := by
    rintro c member rfl
    exact absurd (written _ member) (by decide)
  simpa using fun member => apart _ member rfl

theorem recordLine_isRecord : IsRecord (recordLine entry) := by
  refine ⟨⟨entry.text ++ newline, by simp [recordLine_eq]⟩, not_isStep_of_not_mem fun member => ?_, ?_⟩
  · exact absurd (recordLine_inside written _ member) (by decide)
  · intro same
    have inside := recordLine_inside written 'E' (same ▸ by decide)
    exact absurd inside (by decide)

theorem recordLine_not_isClear : ¬ IsClear (recordLine entry) := not_isClear_of_not_mem fun member =>
  absurd (recordLine_inside written _ member) (by decide)

end

theorem isLine_errorLine : Text.IsLine errorLine := ⟨"  Error\r".toList, by decide, by decide⟩

theorem stepLine_laws (i : Nat) (step : Step Float) :
    Text.IsLine (stepLine i step) ∧ IsStep (stepLine i step) ∧ ¬ IsClear (stepLine i step) := by
  let tail := Text.ofNat (i + 1) ++ ": ".toList ++ step.equation ++ ['\r']
  have split : stepLine i step = "    Step ".toList ++ tail ++ ['\n'] := by
    rw [stepLine_eq]
    simp [tail, newline]
  have inside : ∀ c ∈ "    Step ".toList ++ tail, Written c ∨ c ∈ "Step:\r".toList := by
    have label : ∀ c ∈ "    Step : \r".toList, Written c ∨ c ∈ "Step:\r".toList :=
      List.all_iff_forall_prop.mp (by decide)
    intro c member
    simp only [tail, List.mem_append] at member
    rcases member with front | ((number | colon) | equation) | ending
    · exact label c ((by decide : "    Step ".toList ⊆ "    Step : \r".toList) front)
    · exact Or.inl (written_ofNat _ c number)
    · exact label c ((by decide : ": ".toList ⊆ "    Step : \r".toList) colon)
    · exact Or.inl (Step.written_equation _ c equation)
    · exact label c ((by decide : ['\r'] ⊆ "    Step : \r".toList) ending)
  rw [split]
  refine ⟨⟨_, rfl, fun feed => absurd (inside _ feed) (by decide)⟩, ?_, ?_⟩
  · rw [List.append_assoc]
    exact List.prefix_append _ _
  · apply not_isClear_of_not_mem
    intro member
    rcases List.mem_append.mp member with line | ending
    · exact absurd (inside _ line) (by decide)
    · exact absurd ending (by decide)

theorem detailLines_laws (s : Session) :
    ∀ line ∈ detailLines s, Text.IsLine line ∧ IsStep line ∧ ¬ IsClear line := by
  intro line member
  rw [detailLines_eq] at member
  obtain ⟨i, bound, rfl⟩ := List.mem_mapIdx.mp member
  exact stepLine_laws i s.lastSteps[i]

theorem resultLine_of_some {s : Session} {entry : Entry} (recorded : s.recorded? = some entry) :
    resultLine (s.press .equals) = recordLine entry := by
  change resultLine s.equals = _
  rw [Session.equals_of_some recorded]
  simp [resultLine, recordLine_eq]

theorem resultLine_of_none {s : Session} (unrecorded : s.recorded? = none) :
    resultLine (s.press .equals) = errorLine := by
  change resultLine s.equals = _
  rw [Session.equals_of_none unrecorded]
  rfl

/-- The output so far as lines: those that are finished, and the one being written. -/
structure Page where
  session : Session
  finished : List Text
  current : Text

namespace Page

def calculated (details : Bool) (page : Page) : List Text :=
  let next := page.session.press .equals
  (page.current ++ newline) :: resultLine next :: if details then detailLines next else []

def press (details : Bool) (page : Page) (key : Key) : Page :=
  let next := page.session.press key
  match key with
  | .equals => ⟨next, page.finished ++ page.calculated details, prompt next⟩
  | .clear =>
    let line := page.current ++ (eraseLine ++ "History cleared".toList ++ newline)
    ⟨next, page.finished ++ [line], prompt next⟩
  | _ => ⟨next, page.finished, page.current ++ prompt next⟩

def start : Page := ⟨{}, Text.lines greeting, prompt {}⟩

def after (details : Bool) (keys : List Key) : Page := keys.foldl (press details) start

theorem start_finished : start.finished.flatten = greeting := by
  simp only [start, Text.lines_flatten]

theorem after_append (details : Bool) (keys : List Key) (key : Key) :
    after details (keys ++ [key]) = (after details keys).press details key := by
  simp [after]

theorem after_session (details : Bool) (keys : List Key) :
    (after details keys).session = Session.after keys := by
  induction keys using List.reverseRecOn with
  | nil => rfl
  | append_singleton keys key ih =>
      rw [after_append, Session.after_append, ← ih]
      cases key <;> rfl

/-- Finished lines are whole, and the current one is the prompt or several of them. -/
structure Sound (page : Page) : Prop where
  whole : ∀ line ∈ page.finished, Text.IsLine line
  returned : page.current.head? = some '\r'
  inside : ∀ c ∈ page.current, Written c ∨ c ∈ "\r\x1B[2KExpression: Error".toList

namespace Sound

variable {page : Page} (sound : page.Sound)

include sound

theorem feed_not_mem : '\n' ∉ page.current := fun member =>
  absurd (sound.inside _ member) (by decide)

theorem not_indented (rest : Text) : ¬ "  ".toList <+: page.current ++ rest := by
  obtain ⟨tail, same⟩ := List.head?_eq_some_iff.mp sound.returned
  rw [same]
  rintro ⟨_, split⟩
  exact absurd (List.cons.inj split).1 (by decide)

theorem not_isRecord (rest : Text) : ¬ IsRecord (page.current ++ rest) := fun record =>
  sound.not_indented rest record.1

theorem not_isStep (rest : Text) : ¬ IsStep (page.current ++ rest) := fun step =>
  sound.not_indented rest (.trans (by decide) step)

theorem isLine_newline : Text.IsLine (page.current ++ newline) := by
  refine ⟨page.current ++ ['\r'], by simp [newline], ?_⟩
  simpa using sound.feed_not_mem

theorem not_isClear_newline : ¬ IsClear (page.current ++ newline) := by
  apply not_isClear_of_not_mem
  intro member
  rcases List.mem_append.mp member with line | ending
  · exact absurd (sound.inside _ line) (by decide)
  · exact absurd ending (by decide)

end Sound

theorem prompt_inside {keys : List Key} (typed : ∀ key ∈ keys, key.Typed) :
    ∀ c ∈ prompt (Session.after keys), Written c ∨ c ∈ "\r\x1B[2KExpression: Error".toList := by
  refine List.forall_mem_append.mpr ⟨List.all_iff_forall_prop.mp (by decide), fun c member => ?_⟩
  rcases Session.written_shown typed c member with written | error
  · exact Or.inl written
  · exact Or.inr ((by decide : "Error".toList ⊆ "\r\x1B[2KExpression: Error".toList) error)

theorem start_plain :
    ∀ line ∈ start.finished, ¬ IsRecord line ∧ ¬ IsStep line ∧ ¬ IsClear line := by
  decide +kernel

theorem records_start : recordsSinceClear start.finished = [] := by
  have none : start.finished.filter (fun line => IsRecord line) = [] :=
    List.filter_eq_nil_iff.mpr fun line member record =>
      (start_plain line member).1 (of_decide_eq_true record)
  have kept := recordsSinceClear_append [] fun line member => (start_plain line member).2.2
  rw [none, List.nil_append] at kept
  exact kept

theorem greeting_closed : greeting.getLast? = some '\n' := by
  delta greeting
  rw [String.toList_append, List.getLast?_append]
  decide +kernel

theorem isLine_resultLine {s : Session}
    (written : ∀ entry, s.recorded? = some entry → ∀ c ∈ entry.text, Written c) :
    Text.IsLine (resultLine (s.press .equals)) := by
  cases recorded : s.recorded? with
  | none =>
      rw [resultLine_of_none recorded]
      exact isLine_errorLine
  | some entry =>
      rw [resultLine_of_some recorded]
      exact recordLine_isLine (written entry recorded)

theorem Sound.press (details : Bool) {page : Page} (sound : page.Sound) (key : Key)
    (shown : ∀ c ∈ prompt (page.session.press key),
      Written c ∨ c ∈ "\r\x1B[2KExpression: Error".toList)
    (written : ∀ entry, page.session.recorded? = some entry → ∀ c ∈ entry.text, Written c) :
    (page.press details key).Sound := by
  -- a key that is neither equals nor clear goes on in the line it is in
  have continued : (⟨page.session.press key, page.finished,
      page.current ++ prompt (page.session.press key)⟩ : Page).Sound := by
    refine ⟨sound.whole, ?_, List.forall_mem_append.mpr ⟨sound.inside, shown⟩⟩
    rw [List.head?_append, sound.returned]
    rfl
  cases key with
  | equals =>
      refine ⟨?_, rfl, shown⟩
      refine List.forall_mem_append.mpr ⟨sound.whole, List.forall_mem_cons.mpr
        ⟨sound.isLine_newline, List.forall_mem_cons.mpr ⟨isLine_resultLine written, ?_⟩⟩⟩
      cases details with
      | false => exact List.forall_mem_nil _
      | true => exact fun line member => (detailLines_laws _ line member).1
  | clear =>
      refine ⟨?_, rfl, shown⟩
      refine List.forall_mem_append.mpr ⟨sound.whole, List.forall_mem_singleton.mpr ?_⟩
      refine ⟨page.current ++ (eraseLine ++ "History cleared\r".toList), by simp [newline], ?_⟩
      intro member
      rcases List.mem_append.mp member with line | label
      · exact sound.feed_not_mem line
      · exact absurd label (by decide)
  | digit c => exact continued
  | operator op => exact continued
  | percent => exact continued
  | backspace => exact continued

theorem after_sound (details : Bool) {keys : List Key} (typed : ∀ key ∈ keys, key.Typed) :
    (after details keys).Sound := by
  induction keys using List.reverseRecOn with
  | nil =>
      refine ⟨?_, rfl, prompt_inside typed⟩
      simp only [after, start, List.foldl_nil]
      exact Text.isLine_of_mem_lines greeting_closed
  | append_singleton keys key ih =>
      have known : ∀ key ∈ keys, key.Typed := fun key member =>
        typed key (List.mem_append_left _ member)
      rw [after_append]
      refine (ih known).press details key ?_ ?_
      · rw [after_session, ← Session.after_append]
        exact prompt_inside typed
      · rw [after_session]
        exact fun _ recorded => Session.written_recorded known recorded

section

variable {page : Page} (sound : page.Sound) (details : Bool)
  (written : ∀ entry, page.session.recorded? = some entry → ∀ c ∈ entry.text, Written c)

include sound written

theorem calculated_kept : ∀ line ∈ page.calculated details, ¬ IsClear line := by
  refine List.forall_mem_cons.mpr ⟨sound.not_isClear_newline, List.forall_mem_cons.mpr ⟨?_, ?_⟩⟩
  · cases recorded : page.session.recorded? with
    | none =>
        rw [resultLine_of_none recorded]
        decide
    | some entry =>
        rw [resultLine_of_some recorded]
        exact recordLine_not_isClear (written entry recorded)
  · cases details with
    | false => exact List.forall_mem_nil _
    | true => exact fun line member => (detailLines_laws _ line member).2.2

theorem calculated_records : (page.calculated details).filter (fun line => IsRecord line) =
    page.session.recorded?.toList.map recordLine := by
  have steps : (if details then detailLines (page.session.press .equals) else []).filter
      (fun line => IsRecord line) = [] := by
    cases details with
    | false => rfl
    | true =>
        rw [List.filter_eq_nil_iff]
        intro line member record
        exact (of_decide_eq_true record).2.1 (detailLines_laws _ line member).2.1
  unfold calculated
  rw [List.filter_cons_of_neg (by simpa using sound.not_isRecord newline)]
  cases recorded : page.session.recorded? with
  | none =>
      rw [resultLine_of_none recorded, List.filter_cons_of_neg (by decide), steps]
      rfl
  | some entry =>
      rw [resultLine_of_some recorded, List.filter_cons_of_pos
        (by simpa using recordLine_isRecord (written entry recorded)), steps]
      rfl

theorem calculated_steps : (page.calculated details).filter (fun line => ¬ IsStep line) =
    page.calculated false := by
  have steps : (if details then detailLines (page.session.press .equals) else []).filter
      (fun line => ¬ IsStep line) = [] := by
    cases details with
    | false => rfl
    | true =>
        rw [List.filter_eq_nil_iff]
        intro line member other
        exact of_decide_eq_true other (detailLines_laws _ line member).2.1
  have result : ¬ IsStep (resultLine (page.session.press .equals)) := by
    cases recorded : page.session.recorded? with
    | none =>
        rw [resultLine_of_none recorded]
        decide
    | some entry =>
        rw [resultLine_of_some recorded]
        exact (recordLine_isRecord (written entry recorded)).2.1
  unfold calculated
  rw [List.filter_cons_of_pos (by simpa using sound.not_isStep newline),
    List.filter_cons_of_pos (by simpa using result), steps]
  rfl

end

theorem records_after (details : Bool) {keys : List Key} (typed : ∀ key ∈ keys, key.Typed) :
    recordsSinceClear (after details keys).finished =
      (Session.after keys).history.map recordLine := by
  induction keys using List.reverseRecOn with
  | nil => exact records_start
  | append_singleton keys key ih =>
      have known : ∀ key ∈ keys, key.Typed := fun key member =>
        typed key (List.mem_append_left _ member)
      have sound := after_sound details known
      have session := after_session details keys
      have written : ∀ entry, (after details keys).session.recorded? = some entry →
          ∀ c ∈ entry.text, Written c := by
        rw [session]
        exact fun _ => Session.written_recorded known
      rw [after_append, Session.after_append, ← session]
      rw [← session] at ih
      cases key with
      | equals =>
          change recordsSinceClear ((after details keys).finished ++ calculated details _) =
            (Session.equals _).history.map recordLine
          rw [recordsSinceClear_append _ (calculated_kept sound details written), ih known,
            calculated_records sound details written, Session.equals_history, List.map_append]
      | clear => exact recordsSinceClear_clear _ ⟨(after details keys).current ++ eraseLine, by simp [newline]⟩
      | digit c => exact ih known
      | operator op => exact ih known
      | percent => exact ih known
      | backspace => exact ih known

/-- With and without details the pages differ by the lines of steps. -/
theorem steps_after {keys : List Key} (typed : ∀ key ∈ keys, key.Typed) :
    (after true keys).finished.filter (fun line => ¬ IsStep line) = (after false keys).finished ∧
      (after true keys).current = (after false keys).current := by
  induction keys using List.reverseRecOn with
  | nil =>
      refine ⟨List.filter_eq_self.mpr fun line member => ?_, rfl⟩
      exact decide_eq_true (start_plain line member).2.1
  | append_singleton keys key ih =>
      have known : ∀ key ∈ keys, key.Typed := fun key member =>
        typed key (List.mem_append_left _ member)
      obtain ⟨finished, current⟩ := ih known
      have sound := after_sound true known
      have session := after_session true keys
      have alike : (after true keys).session = (after false keys).session :=
        session.trans (after_session false keys).symm
      have written : ∀ entry, (after true keys).session.recorded? = some entry →
          ∀ c ∈ entry.text, Written c := by
        rw [session]
        exact fun _ => Session.written_recorded known
      have same : (after true keys).calculated false = (after false keys).calculated false := by
        rw [calculated, calculated, alike, current]
      have continued : (after true keys).current ++ prompt ((after true keys).session.press key) =
          (after false keys).current ++ prompt ((after false keys).session.press key) := by
        rw [alike, current]
      rw [after_append, after_append]
      cases key with
      | equals =>
          refine ⟨?_, congrArg (fun s => prompt (Session.equals s)) alike⟩
          change ((after true keys).finished ++ (after true keys).calculated true).filter _ =
            (after false keys).finished ++ (after false keys).calculated false
          rw [List.filter_append, finished, calculated_steps sound true written, same]
      | clear =>
          refine ⟨?_, rfl⟩
          change ((after true keys).finished ++ [_]).filter _ = (after false keys).finished ++ [_]
          rw [List.filter_append, finished, ← current,
            List.filter_cons_of_pos (by simpa using sound.not_isStep _)]
          rfl
      -- other keys finish no line
      | digit c => exact ⟨finished, continued⟩
      | operator op => exact ⟨finished, continued⟩
      | percent => exact ⟨finished, continued⟩
      | backspace => exact ⟨finished, continued⟩

end Page

theorem answers_page (details : Bool) (strokes : List Keystroke) (page : Page) :
    page.finished.flatten ++ page.current ++ (answers details page.session strokes).flatten =
      ((keys strokes).foldl (Page.press details) page).finished.flatten ++
        ((keys strokes).foldl (Page.press details) page).current ++ farewell := by
  induction strokes generalizing page with
  | nil => simp [answers, keys]
  | cons stroke rest ih =>
      rw [answers, keys]
      cases meant : Command.ofKeystroke? stroke with
      | none => exact ih page
      | some command =>
          cases command with
          | quit => simp
          | press key =>
              have later := ih (page.press details key)
              rw [List.foldl_cons, ← later]
              cases key <;> cases details <;>
                simp [Page.press, Page.calculated, reply]

theorem lines_transcript (details : Bool) (strokes : List Keystroke) :
    Text.lines (transcript details strokes).flatten =
      (Page.after details (keys strokes)).finished ++
        [(Page.after details (keys strokes)).current ++ newline, "Goodbye!".toList ++ newline] := by
  have sound := Page.after_sound details (typed_keys strokes)
  have written := answers_page details strokes Page.start
  rw [Page.start_finished, farewell] at written
  have goodbye : Text.IsLine ("Goodbye!".toList ++ newline) := ⟨"Goodbye!\r".toList, rfl, by decide⟩
  have flattened : (transcript details strokes).flatten =
      (Page.after details (keys strokes)).finished.flatten ++
        ((Page.after details (keys strokes)).current ++ newline ++
          ("Goodbye!".toList ++ newline ++ [])) := by
    simp only [transcript, List.flatten_cons, ← List.append_assoc, List.append_nil] at written ⊢
    exact written
  rw [flattened, Text.lines_flatten_append sound.whole, Text.lines_append sound.isLine_newline,
    Text.lines_append goodbye]
  rfl

theorem answers_append (details : Bool) (s : Session) {before : List Keystroke}
    (running : ∀ stroke ∈ before, Command.ofKeystroke? stroke ≠ some .quit) :
    ∃ earlier, ∀ rest, prompt s :: answers details s (before ++ rest) =
      earlier ++ prompt ((keys before).foldl Session.press s) ::
        answers details ((keys before).foldl Session.press s) rest := by
  induction before generalizing s with
  | nil => exact ⟨[], fun rest => rfl⟩
  | cons stroke before ih =>
      obtain ⟨first, others⟩ := List.forall_mem_cons.mp running
      simp only [List.cons_append, answers, keys]
      cases meant : Command.ofKeystroke? stroke with
      | none => exact ih s others
      | some command =>
          cases command with
          | quit => exact absurd meant first
          | press key =>
              obtain ⟨earlier, later⟩ := ih (s.press key) others
              refine ⟨prompt s :: reply details key (s.press key) ++ earlier, fun rest => ?_⟩
              simp only [later rest, List.foldl_cons, List.cons_append, List.append_assoc]

theorem records_transcript (details : Bool) (strokes : List Keystroke) :
    recordsSinceClear (Text.lines (transcript details strokes).flatten) =
      (Session.after (keys strokes)).history.map recordLine := by
  have sound := Page.after_sound details (typed_keys strokes)
  have ending : ∀ line ∈ [(Page.after details (keys strokes)).current ++ newline,
      "Goodbye!".toList ++ newline], ¬ IsClear line ∧ ¬ IsRecord line :=
    List.forall_mem_cons.mpr ⟨⟨sound.not_isClear_newline, sound.not_isRecord newline⟩,
      List.forall_mem_singleton.mpr (by decide)⟩
  have none : [(Page.after details (keys strokes)).current ++ newline,
      "Goodbye!".toList ++ newline].filter (fun line => IsRecord line) = [] := by
    rw [List.filter_eq_nil_iff]
    intro line member record
    exact (ending line member).2 (of_decide_eq_true record)
  rw [lines_transcript, recordsSinceClear_append _ fun line member => (ending line member).1, none,
    List.append_nil, Page.records_after details (typed_keys strokes)]

theorem steps_transcript (strokes : List Keystroke) :
    (Text.lines (transcript true strokes).flatten).filter (fun line => ¬ IsStep line) =
      Text.lines (transcript false strokes).flatten := by
  have sound := Page.after_sound true (typed_keys strokes)
  obtain ⟨finished, current⟩ := Page.steps_after (typed_keys strokes)
  have prompted : ¬ IsStep ((Page.after true (keys strokes)).current ++ newline) :=
    sound.not_isStep newline
  rw [lines_transcript, lines_transcript, List.filter_append, finished, ← current,
    List.filter_cons_of_pos (by simpa using prompted), List.filter_cons_of_pos (by decide),
    List.filter_nil]

theorem resultLine_laws {keys : List Key} (typed : ∀ key ∈ keys, key.Typed) :
    let s := Session.after keys
    let next := s.press .equals
    (resultLine next = errorLine ↔ s.recorded? = none) ∧
      (resultLine next = errorLine ↔ next.display = .error) ∧
      (s.recorded? = none → next.history = s.history ∧ next.shown = "Error".toList) ∧
      (next.display = .input → next.history ≠ []) ∧
      ∀ entry, s.recorded? = some entry → resultLine next = recordLine entry ∧
        next.history = s.history ++ [entry] ∧ s.shown = entry.expression ∧
        next.shown = entry.result := by
  intro s next
  have failing : next.display = .error ↔ s.recorded? = none := s.equals_error_iff
  cases recorded : s.recorded? with
  | none =>
      have failed : next = _ := Session.equals_of_none recorded
      have line : resultLine next = errorLine := resultLine_of_none recorded
      refine ⟨iff_of_true line rfl, iff_of_true line (failing.mpr recorded), fun _ => ?_, ?_, by simp⟩
      · rw [failed]
        exact ⟨rfl, rfl⟩
      · rw [failed]
        simp
  | some entry =>
      have succeeded : next = _ := Session.equals_of_some recorded
      have line : resultLine next = recordLine entry := resultLine_of_some recorded
      have told := (recordLine_isRecord (Session.written_recorded typed recorded)).2.2
      have shows : next.display ≠ .error := fun error =>
        Option.some_ne_none entry (recorded.symm.trans (failing.mp error))
      rw [line]
      refine ⟨iff_of_false told (Option.some_ne_none entry), iff_of_false told shows, by simp, ?_, ?_⟩
      · rw [succeeded]
        simp
      · rintro _ ⟨⟩
        rw [succeeded]
        exact ⟨rfl, rfl, Session.shown_recorded recorded, rfl⟩

/-- An equals press is answered by the calculation it records or by the error, and details add a line
for each of its steps; since the last clear the calculations told are the history; and without the
lines of steps the output is that without details. -/
theorem transcript_laws (details : Bool) (strokes : List Keystroke) :
    (∀ before stroke rest, strokes = before ++ stroke :: rest →
      (∀ other ∈ before, Command.ofKeystroke? other ≠ some .quit) →
      Command.ofKeystroke? stroke = some (.press .equals) →
      let s := Session.after (keys before)
      let next := s.press .equals
      ∃ earlier line later,
        transcript details before =
          earlier ++ [promptText s.shown, "\r\nGoodbye!\r\n".toList] ∧
        transcript details strokes = earlier ++ promptText s.shown :: "\r\n".toList :: line ::
          (if details then next.lastSteps.mapIdx stepLine else []) ++
          promptText next.shown :: later ∧
        (line = errorLine ↔ s.recorded? = none) ∧ (line = errorLine ↔ next.display = .error) ∧
        (s.recorded? = none → next.history = s.history ∧ next.shown = "Error".toList) ∧
        (next.display = .input → next.history ≠ []) ∧
        ∀ entry, s.recorded? = some entry → line = recordLine entry ∧
          next.history = s.history ++ [entry] ∧ s.shown = entry.expression ∧
          next.shown = entry.result) ∧
    recordsSinceClear (Text.lines (transcript details strokes).flatten) =
      (Session.after (keys strokes)).history.map recordLine ∧
    ((Text.lines (transcript true strokes).flatten).filter fun line => ¬ IsStep line).flatten =
      (transcript false strokes).flatten := by
  refine ⟨?_, records_transcript details strokes, ?_⟩
  · rintro before stroke rest rfl running pressed s next
    obtain ⟨earlier, later⟩ := answers_append details {} running
    refine ⟨greeting :: earlier, resultLine next, answers details next rest, ?_, ?_,
      resultLine_laws (typed_keys before)⟩
    · have ended := later []
      rw [List.append_nil] at ended
      rw [transcript, ended, prompt_eq]
      rfl
    · rw [transcript, later (stroke :: rest), answers, pressed, ← detailLines_eq, prompt_eq]
      simp only [reply, List.cons_append, List.append_assoc]
      rfl
  · rw [steps_transcript, Text.lines_flatten]

theorem transcript_cleared :
    let strokes : List Keystroke := "1=2+=".toList.map (⟨.char ·, {}⟩) ++ [⟨.escape, {}⟩] ++
      "1+2=".toList.map (⟨.char ·, {}⟩)
    recordsSinceClear (Text.lines (transcript true strokes).flatten) = ["  1+2 = 3\r\n".toList] ∧
      ∃ earlier later, transcript true strokes = earlier ++
        ["\r\x1B[2KExpression: 1+2".toList, "\r\n".toList, "  1+2 = 3\r\n".toList,
          "    Step 1: 1 + 2 = 3\r\n".toList, "\r\x1B[2KExpression: 3".toList] ++ later := by
  intro strokes
  have laws := transcript_laws true strokes
  constructor
  · have history : (Session.after (keys strokes)).history = [⟨"1+2".toList, "3".toList⟩] := by
      decide +kernel
    rw [laws.2.1, history]
    rfl
  · let before := strokes.dropLast
    have recorded : (Session.after (keys before)).recorded? = some ⟨"1+2".toList, "3".toList⟩ := by
      decide +kernel
    have split : strokes = before ++ [⟨.char '=', {}⟩] := by decide +kernel
    have running : ∀ other ∈ before, Command.ofKeystroke? other ≠ some .quit := by decide +kernel
    have steps : ((Session.after (keys before)).press .equals).lastSteps.mapIdx stepLine =
        ["    Step 1: 1 + 2 = 3\r\n".toList] := by
      decide +kernel
    obtain ⟨earlier, line, later, _, written, _, _, _, _, told⟩ :=
      laws.1 before _ [] split running (by decide)
    obtain ⟨same, _, shown, result⟩ := told _ recorded
    have prompts : promptText "1+2".toList = "\r\x1B[2KExpression: 1+2".toList ∧
        promptText "3".toList = "\r\x1B[2KExpression: 3".toList ∧
        recordLine ⟨"1+2".toList, "3".toList⟩ = "  1+2 = 3\r\n".toList := by
      decide
    rw [steps, same, shown, result, prompts.1, prompts.2.1, prompts.2.2] at written
    refine ⟨earlier, later, written.trans ?_⟩
    simp only [if_true, List.append_assoc, List.cons_append, List.nil_append]

end LineMode

end Calculator
