import Mathlib.Data.List.Basic
import Calculator.Proofs.FrontEnds
import Calculator.Proofs.TypedKeys

namespace Calculator.FullScreen

/-- Something that happens to the calculator. A resize shows in the size of the draws after it. -/
inductive Moment where
  | event (event : TerminalEvent)
  | draw (size : Size)
  deriving DecidableEq, Repr

def Moment.key (code : KeyCode) : Moment := .event (.key { code := code })

/-- What a moment does to the session and the history panel: it presses a key, scrolls the panel,
has its lines counted, or leaves both alone. -/
inductive Deed where
  | press (key : Key)
  | scroll (direction : Direction)
  | count (size : Size)
  | aside
  deriving DecidableEq, Repr

def Deed.key? : Deed → Option Key
  | .press key => some key
  | _ => none

namespace App

def meet (app : App) : Moment → App
  | .event event => app.handle event
  | .draw size => app.settle size

def after (details : Bool) (moments : List Moment) : App :=
  moments.foldl meet { detailsShown := details }

def deed (app : App) (moment : Moment) : Deed :=
  if app.helpOpen then .aside
  else match moment with
    | .event (.key stroke) =>
      match Action.ofKeystroke? stroke with
      | some (.press key) => .press key
      | some (.scroll direction) => .scroll direction
      | _ => .aside
    | .event (.wheel direction) => .scroll direction
    | .event .other => .aside
    | .draw size => if fits size then .count size else .aside

def presses : App → List Moment → List Key
  | _, [] => []
  | app, moment :: rest => (app.deed moment).key?.toList ++ presses (app.meet moment) rest

structure Alike (app next : App) : Prop where
  session : next.session = app.session
  lastPressed : next.lastPressed = app.lastPressed
  listHeight : next.listHeight = app.listHeight
  historyLines : next.historyLines = app.historyLines
  historyScroll : next.historyScroll = app.historyScroll
  followNewest : next.followNewest = app.followNewest

def Leaves (app : App) : Deed → App → Prop
  | .press key, next => next = app.press key
  | .scroll direction, next => next = app.scrollHistory direction
  | .count size, next =>
    next = { app with tooSmall := false }.countHistory (historyArea size app.detailsShown)
  | .aside, next => app.Alike next

variable {app : App}

theorem after_append (details : Bool) (moments : List Moment) (moment : Moment) :
    after details (moments ++ [moment]) = (after details moments).meet moment := by
  simp [after]

theorem meet_help (shown : app.helpOpen = true) (moment : Moment) :
    app.meet moment = match moment with
      | .event (.key stroke) => app.handleHelpKey stroke.code
      | .event (.wheel direction) => app.scrollHelp 3 direction
      | .event .other => app
      | .draw _ => app.clampHelp HelpScreen.lines.length := by
  cases moment with
  | draw size => exact if_pos shown
  | event event =>
      cases event with
      | other => rfl
      | wheel direction => exact if_pos shown
      | key stroke => exact if_pos shown

theorem meet_main (main : app.helpOpen = false) (moment : Moment) :
    app.meet moment = match moment with
      | .event (.key stroke) =>
        match Action.ofKeystroke? stroke with
        | some action => app.apply action
        | none => app
      | .event (.wheel direction) => app.scrollHistory direction
      | .event .other => app
      | .draw size =>
        if fits size then
          { app with tooSmall := false }.countHistory (historyArea size app.detailsShown)
        else { app with tooSmall := true } := by
  have closed : ¬ app.helpOpen = true := by rw [main]; exact Bool.false_ne_true
  cases moment with
  | draw size =>
      refine (if_neg closed).trans ?_
      dsimp only
      cases fits size <;> rfl
  | event event =>
      cases event with
      | other => rfl
      | wheel direction => exact if_neg closed
      | key stroke => exact if_neg closed

theorem meet_leaves (app : App) (moment : Moment) :
    app.Leaves (app.deed moment) (app.meet moment) := by
  unfold deed
  cases shown : app.helpOpen with
  | true =>
      rw [meet_help shown, if_pos rfl]
      cases moment with
      | draw size => exact ⟨rfl, rfl, rfl, rfl, rfl, rfl⟩
      | event event =>
          cases event with
          | other => exact ⟨rfl, rfl, rfl, rfl, rfl, rfl⟩
          | wheel direction => cases direction <;> exact ⟨rfl, rfl, rfl, rfl, rfl, rfl⟩
          | key stroke =>
              dsimp only
              unfold handleHelpKey
              split <;> exact ⟨rfl, rfl, rfl, rfl, rfl, rfl⟩
  | false =>
      rw [meet_main shown, if_neg Bool.false_ne_true]
      cases moment with
      | draw size =>
          dsimp only
          split_ifs
          · rfl
          · exact ⟨rfl, rfl, rfl, rfl, rfl, rfl⟩
      | event event =>
          cases event with
          | other => exact ⟨rfl, rfl, rfl, rfl, rfl, rfl⟩
          | wheel direction => rfl
          | key stroke =>
              dsimp only
              cases Action.ofKeystroke? stroke with
              | none => exact ⟨rfl, rfl, rfl, rfl, rfl, rfl⟩
              | some action =>
                  cases action with
                  | press key => rfl
                  | scroll direction => rfl
                  | toggleDetails => exact ⟨rfl, rfl, rfl, rfl, rfl, rfl⟩
                  | showHelp => exact ⟨rfl, rfl, rfl, rfl, rfl, rfl⟩
                  | quit => exact ⟨rfl, rfl, rfl, rfl, rfl, rfl⟩

section

variable {moment : Moment}

theorem meet_of_press {key : Key} (press : app.deed moment = .press key) :
    app.meet moment = app.press key := by
  have left := app.meet_leaves moment
  rw [press] at left
  exact left

theorem meet_of_scroll {direction : Direction} (scroll : app.deed moment = .scroll direction) :
    app.meet moment = app.scrollHistory direction := by
  have left := app.meet_leaves moment
  rw [scroll] at left
  exact left

theorem meet_of_count {size : Size} (count : app.deed moment = .count size) :
    app.meet moment =
      { app with tooSmall := false }.countHistory (historyArea size app.detailsShown) := by
  have left := app.meet_leaves moment
  rw [count] at left
  exact left

theorem meet_of_aside (aside : app.deed moment = .aside) : app.Alike (app.meet moment) := by
  have left := app.meet_leaves moment
  rw [aside] at left
  exact left

end

theorem deed_key? (app : App) (moment : Moment) :
    (app.deed moment).key? = match moment with
      | .event event => app.pressed? event
      | .draw _ => none := by
  unfold deed
  cases shown : app.helpOpen with
  | true =>
      rw [if_pos rfl]
      cases moment with
      | draw size => rfl
      | event event => cases event <;> simp [pressed?, shown, Deed.key?]
  | false =>
      rw [if_neg Bool.false_ne_true]
      cases moment with
      | draw size =>
          dsimp only
          split_ifs <;> rfl
      | event event =>
          cases event with
          | other => rfl
          | wheel direction => rfl
          | key stroke =>
              simp only [pressed?, shown, if_false, Bool.false_eq_true]
              cases Action.ofKeystroke? stroke with
              | none => rfl
              | some action => cases action <;> rfl

theorem deed_key?_eq_some_iff (app : App) (moment : Moment) (key : Key) :
    (app.deed moment).key? = some key ↔ app.helpOpen = false ∧ ∃ stroke,
      moment = .event (.key stroke) ∧ Action.ofKeystroke? stroke = some (.press key) := by
  rw [deed_key?]
  cases moment with
  | draw size => simp
  | event event =>
      cases event with
      | other => simp [pressed?]
      | wheel direction => simp [pressed?]
      | key stroke =>
          cases shown : app.helpOpen with
          | true => simp [pressed?, shown]
          | false =>
              simp only [pressed?, shown, if_false, Bool.false_eq_true, Moment.event.injEq,
                TerminalEvent.key.injEq, exists_eq_left', true_and]
              cases Action.ofKeystroke? stroke with
              | none => simp
              | some action => cases action <;> simp

theorem presses_typed (app : App) (moments : List Moment) :
    ∀ key ∈ presses app moments, key.Typed := by
  induction moments generalizing app with
  | nil => simp [presses]
  | cons moment rest ih =>
      intro key member
      rcases List.mem_append.mp member with now | later
      · rw [deed_key?] at now
        cases moment with
        | draw size => cases now
        | event event => exact typed_pressed? (Option.mem_toList.mp now)
      · exact ih _ key later

theorem meet_session (app : App) (moment : Moment) :
    (app.meet moment).session =
      (app.deed moment).key?.toList.foldl Session.press app.session := by
  rw [deed_key?]
  cases moment with
  | draw size => exact (app.settle_keeps size).1
  | event event => exact handle_session app event

theorem meets_session (app : App) (moments : List Moment) :
    (moments.foldl meet app).session = (presses app moments).foldl Session.press app.session := by
  induction moments generalizing app with
  | nil => rfl
  | cons moment rest ih => rw [List.foldl_cons, ih, meet_session, presses, List.foldl_append]

theorem after_session (details : Bool) (moments : List Moment) :
    (after details moments).session =
      Session.after (presses { detailsShown := details } moments) :=
  meets_session _ moments

theorem press_lastPressed (app : App) (key : Key) : (app.press key).lastPressed = some key := by
  unfold press
  dsimp only
  split_ifs <;> rfl

theorem scrollHistory_lastPressed (app : App) (direction : Direction) :
    (app.scrollHistory direction).lastPressed = app.lastPressed := by
  cases direction <;> rfl

theorem countHistory_lastPressed (app : App) (area : Area) :
    (app.countHistory area).lastPressed = app.lastPressed := by
  unfold countHistory
  dsimp only
  split_ifs <;> rfl

theorem meet_lastPressed (app : App) (moment : Moment) :
    (app.meet moment).lastPressed = (app.deed moment).key?.or app.lastPressed := by
  cases deed : app.deed moment with
  | press key =>
      rw [meet_of_press deed]
      exact press_lastPressed app key
  | scroll direction =>
      rw [meet_of_scroll deed]
      exact scrollHistory_lastPressed app direction
  | count size =>
      rw [meet_of_count deed]
      exact countHistory_lastPressed _ _
  | aside => exact (meet_of_aside deed).lastPressed

theorem meets_lastPressed (app : App) (moments : List Moment) :
    (moments.foldl meet app).lastPressed = (presses app moments).getLast?.or app.lastPressed := by
  induction moments generalizing app with
  | nil => rfl
  | cons moment rest ih =>
      rw [List.foldl_cons, ih, meet_lastPressed, presses, List.getLast?_append, Option.or_assoc]
      cases (app.deed moment).key? <;> rfl

theorem meet_quitting_iff (app : App) (moment : Moment) :
    (app.meet moment).quitting ↔ app.quitting ∨ app.helpOpen = false ∧ ∃ stroke,
      moment = .event (.key stroke) ∧ Action.ofKeystroke? stroke = some .quit := by
  cases shown : app.helpOpen with
  | true =>
      have kept : (app.meet moment).quitting = app.quitting := by
        rw [meet_help shown]
        cases moment with
        | draw size => rfl
        | event event =>
            cases event with
            | other => rfl
            | wheel direction => cases direction <;> rfl
            | key stroke =>
                dsimp only
                unfold handleHelpKey
                split <;> rfl
      simp [kept]
  | false =>
      rw [meet_main shown]
      cases moment with
      | draw size =>
          dsimp only
          split_ifs <;> simp [countHistory_keeps]
      | event event =>
          cases event with
          | other => simp
          | wheel direction => cases direction <;> simp [scrollHistory]
          | key stroke =>
              simp only [Moment.event.injEq, TerminalEvent.key.injEq, exists_eq_left', true_and]
              cases Action.ofKeystroke? stroke with
              | none => simp
              | some action =>
                  cases action with
                  | press key => simp [apply, (app.press_keeps key).1]
                  | scroll direction => cases direction <;> simp [apply, scrollHistory]
                  | toggleDetails => simp [apply]
                  | showHelp => simp [apply]
                  | quit => simp [apply]

theorem meet_help_scroll (shown : app.helpOpen = true) (moment : Moment)
    (stays : ∀ stroke, moment = .event (.key stroke) →
      stroke.code ≠ .escape ∧ stroke.code ≠ .function 1) :
    ∃ lines, app.meet moment = { app with helpScroll := lines } := by
  rw [meet_help shown]
  cases moment with
  | draw size => exact ⟨_, rfl⟩
  | event event =>
      cases event with
      | other => exact ⟨app.helpScroll, rfl⟩
      | wheel direction => cases direction <;> exact ⟨_, rfl⟩
      | key stroke =>
          obtain ⟨escape, function⟩ := stays stroke rfl
          dsimp only
          unfold handleHelpKey
          split
          case h_5 code => exact absurd code escape
          case h_6 code => exact absurd code function
          case h_7 => exact ⟨app.helpScroll, rfl⟩
          all_goals exact ⟨_, rfl⟩

theorem meets_help_scroll (shown : app.helpOpen = true) (moments : List Moment)
    (stays : ∀ stroke, .event (.key stroke) ∈ moments →
      stroke.code ≠ .escape ∧ stroke.code ≠ .function 1) :
    ∃ lines, moments.foldl meet app = { app with helpScroll := lines } := by
  induction moments generalizing app with
  | nil => exact ⟨app.helpScroll, rfl⟩
  | cons moment rest ih =>
      obtain ⟨first, met⟩ := meet_help_scroll shown moment fun stroke same =>
        stays stroke (by simp [same])
      have still : (app.meet moment).helpOpen = true := by rw [met]; exact shown
      obtain ⟨lines, later⟩ := ih still fun stroke member =>
        stays stroke (List.mem_cons_of_mem _ member)
      refine ⟨lines, ?_⟩
      rw [List.foldl_cons, later, met]

theorem meet_help_close (shown : app.helpOpen = true) {stroke : Keystroke}
    (closes : stroke.code = .escape ∨ stroke.code = .function 1) :
    app.meet (.event (.key stroke)) = { app with helpOpen := false, helpScroll := 0 } := by
  rw [meet_help shown]
  rcases closes with code | code
  · dsimp only
    rw [code]
    rfl
  · dsimp only
    rw [code]
    rfl

end App

/-- The program's own runs are runs of moments and press the same keys. -/
theorem run_moments (size : Size) (app : App) (events : List TerminalEvent) :
    ∃ moments, (run size app events).1 = moments.foldl App.meet app ∧
      keys size app events = App.presses app moments := by
  have drawn : ∀ app : App, (app.deed (.draw size)).key? = none := fun app => app.deed_key? _
  induction events generalizing app with
  | nil => exact ⟨[.draw size], rfl, by simp [keys, App.presses, drawn]⟩
  | cons event rest ih =>
      unfold run keys
      by_cases quitting : (app.settle size).quitting
      · simp only [quitting, if_true]
        exact ⟨[.draw size], rfl, by simp [App.presses, drawn]⟩
      · simp only [quitting, if_false, Bool.false_eq_true]
        obtain ⟨moments, state, pressed⟩ := ih ((app.settle size).handle event)
        refine ⟨.draw size :: .event event :: moments, state, ?_⟩
        rw [App.presses, App.presses, drawn, App.deed_key?, pressed]
        rfl

/-- Session, last key, quitting and help screen after any moments. -/
theorem App.session_after_moments (details : Bool) (moments : List Moment) :
    let app := after details moments
    let pressed := presses { detailsShown := details } moments
    (∀ (state : App) (moment : Moment) (key : Key),
        (state.deed moment).key? = some key ↔ state.helpOpen = false ∧ ∃ stroke,
          moment = .event (.key stroke) ∧ Action.ofKeystroke? stroke = some (.press key)) ∧
      app.session = Session.after pressed ∧
      app.lastPressed = pressed.getLast? ∧
      (∀ moment, (app.deed moment).key? = none → (app.meet moment).session = app.session) ∧
      (∀ moment, (app.meet moment).quitting ↔ app.quitting ∨ app.helpOpen = false ∧ ∃ stroke,
        moment = .event (.key stroke) ∧ Action.ofKeystroke? stroke = some .quit) ∧
      (app.helpOpen = true → ∀ later : List Moment,
        (∀ stroke, .event (.key stroke) ∈ later →
          stroke.code ≠ .escape ∧ stroke.code ≠ .function 1) →
        ∃ lines, later.foldl meet app = { app with helpScroll := lines }) ∧
      (app.helpOpen = true → ∀ stroke : Keystroke,
        stroke.code = .escape ∨ stroke.code = .function 1 →
        app.meet (.event (.key stroke)) = { app with helpOpen := false, helpScroll := 0 }) := by
  intro app pressed
  refine ⟨deed_key?_eq_some_iff, after_session details moments, ?_, ?_, app.meet_quitting_iff,
    meets_help_scroll, ?_⟩
  · exact (meets_lastPressed _ moments).trans Option.or_none
  · intro moment aside
    rw [meet_session, aside]
    rfl
  · intro shown stroke closes
    exact meet_help_close shown closes

end Calculator.FullScreen
