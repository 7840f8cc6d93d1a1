import Mathlib.Tactic.SplitIfs
import Calculator.FullScreen.Program
import Calculator.LineMode
import Calculator.Proofs.SessionRun

namespace Calculator

/-- The keystroke types the character: neither control nor alt is held. -/
structure Keystroke.Types (stroke : Keystroke) (c : Char) : Prop where
  code : stroke.code = .char c
  control : stroke.modifiers.control = false
  alt : stroke.modifiers.alt = false

namespace FullScreen

namespace App

theorem countHistory_keeps (app : App) (area : Area) :
    (app.countHistory area).session = app.session ∧
      (app.countHistory area).quitting = app.quitting ∧
      (app.countHistory area).helpOpen = app.helpOpen := by
  unfold countHistory
  dsimp only
  split_ifs <;> exact ⟨rfl, rfl, rfl⟩

theorem settle_keeps (app : App) (size : Size) :
    (app.settle size).session = app.session ∧ (app.settle size).quitting = app.quitting ∧
      (app.settle size).helpOpen = app.helpOpen := by
  unfold settle
  dsimp only
  split_ifs
  · exact ⟨rfl, rfl, rfl⟩
  · exact ⟨rfl, rfl, rfl⟩
  · exact countHistory_keeps _ _

theorem press_session (app : App) (key : Key) :
    (app.press key).session = app.session.press key := by
  unfold press
  dsimp only
  split_ifs <;> rfl

theorem press_keeps (app : App) (key : Key) :
    (app.press key).quitting = app.quitting ∧ (app.press key).helpOpen = app.helpOpen := by
  unfold press
  dsimp only
  split_ifs <;> exact ⟨rfl, rfl⟩

theorem scrollHistory_session (app : App) (direction : Direction) :
    (app.scrollHistory direction).session = app.session := by
  cases direction <;> rfl

theorem scrollHelp_session (app : App) (lines : Nat) (direction : Direction) :
    (app.scrollHelp lines direction).session = app.session := by
  cases direction <;> rfl

theorem handleHelpKey_session (app : App) (code : KeyCode) :
    (app.handleHelpKey code).session = app.session := by
  unfold handleHelpKey
  split <;> rfl

theorem apply_session (app : App) (action : Action) :
    (app.apply action).session = match action with
      | .press key => app.session.press key
      | _ => app.session := by
  cases action with
  | press key => exact press_session app key
  | scroll direction => exact scrollHistory_session app direction
  | toggleDetails => rfl
  | showHelp => rfl
  | quit => rfl

theorem handle_session (app : App) (event : TerminalEvent) :
    (app.handle event).session = (app.pressed? event).toList.foldl Session.press app.session := by
  cases event with
  | other => rfl
  | wheel direction =>
      by_cases help : app.helpOpen
      · simp only [handle, help, if_true]
        exact scrollHelp_session app 3 direction
      · simp only [handle, help, if_false, Bool.false_eq_true]
        exact scrollHistory_session app direction
  | key stroke =>
      by_cases help : app.helpOpen
      · simp only [handle, pressed?, help, if_true]
        exact handleHelpKey_session app stroke.code
      · simp only [handle, pressed?, help, if_false, Bool.false_eq_true]
        cases Action.ofKeystroke? stroke with
        | none => rfl
        | some action =>
            rw [apply_session]
            cases action <;> rfl

end App

theorem run_session (size : Size) (app : App) (events : List TerminalEvent) :
    (run size app events).1.session = (keys size app events).foldl Session.press app.session := by
  induction events generalizing app with
  | nil => exact (app.settle_keeps size).1
  | cons event rest ih =>
      unfold run keys
      by_cases quitting : (app.settle size).quitting
      · simp only [quitting, if_true]
        exact (app.settle_keeps size).1
      · simp only [quitting, if_false, Bool.false_eq_true]
        rw [ih, App.handle_session, (app.settle_keeps size).1, List.foldl_append]

theorem ofKeystroke?_types {stroke : Keystroke} {c : Char} (types : stroke.Types c) {key : Key}
    (found : Key.ofChar? c = some key) : Action.ofKeystroke? stroke = some (.press key) := by
  have unmapped : ['q', 'Q', 'c', 'C', 'd', 'D'].all fun other => (Key.ofChar? other).isNone := by
    decide
  have apart : ∀ other ∈ ['q', 'Q', 'c', 'C', 'd', 'D'], c ≠ other := by
    rintro other member rfl
    have none := List.all_eq_true.mp unmapped c member
    rw [found] at none
    cases none
  simp only [List.forall_mem_cons] at apart
  have bound : Action.ofKeystroke? stroke = Action.ofChar? c := by
    rw [Action.ofKeystroke?, types.control, types.alt, types.code]
    rfl
  rw [bound]
  simp only [Action.ofChar?, apart, or_self, if_false, found, Option.map_some]

end FullScreen

theorem LineMode.ofKeystroke?_types {stroke : Keystroke} {c : Char} (types : stroke.Types c) {key : Key}
    (found : Key.ofChar? c = some key) : Command.ofKeystroke? stroke = some (.press key) := by
  have other : c ≠ 'q' := by
    rintro rfl
    cases found
  simp [Command.ofKeystroke?, types.code, types.control, types.alt, other, found]

section

variable {strokes : List Keystroke} {text : Text}

theorem LineMode.keys_types (types : List.Forall₂ Keystroke.Types strokes text)
    (known : ∀ c ∈ text, (Key.ofChar? c).isSome) : keys strokes = text.filterMap Key.ofChar? := by
  induction types with
  | nil => rfl
  | @cons stroke c strokes text first rest ih =>
      obtain ⟨key, found⟩ := Option.isSome_iff_exists.mp (known c (by simp))
      rw [keys, ofKeystroke?_types first found, List.filterMap_cons_some found,
        ← ih fun c member => known c (List.mem_cons_of_mem _ member)]

theorem FullScreen.keys_types (types : List.Forall₂ Keystroke.Types strokes text)
    (known : ∀ c ∈ text, (Key.ofChar? c).isSome) (size : Size) {app : App}
    (running : app.quitting = false) (main : app.helpOpen = false) :
    keys size app (strokes.map .key) = text.filterMap Key.ofChar? := by
  induction types generalizing app with
  | nil => rfl
  | @cons stroke c strokes text first rest ih =>
      obtain ⟨key, found⟩ := Option.isSome_iff_exists.mp (known c (by simp))
      obtain ⟨_, quitting, helpOpen⟩ := app.settle_keeps size
      obtain ⟨stillRunning, stillMain⟩ := (app.settle size).press_keeps key
      have action := ofKeystroke?_types first found
      rw [running] at quitting
      rw [main] at helpOpen
      have handled : (app.settle size).handle (.key stroke) = (app.settle size).press key := by
        simp only [App.handle, helpOpen, action, App.apply, Bool.false_eq_true, if_false]
      have pressed : (app.settle size).pressed? (.key stroke) = some key := by
        simp only [App.pressed?, helpOpen, action, Bool.false_eq_true, if_false]
      rw [List.map_cons, keys, List.filterMap_cons_some found]
      simp only [quitting, handled, pressed, Bool.false_eq_true, if_false]
      rw [ih (fun c member => known c (List.mem_cons_of_mem _ member))
        (stillRunning.trans quitting) (stillMain.trans helpOpen)]
      rfl

/-- A text typed on the main screen of a new calculator gives the session that it gives on a line. -/
theorem FullScreen.run_types (types : List.Forall₂ Keystroke.Types strokes text)
    (known : ∀ c ∈ text, (Key.ofChar? c).isSome) (size : Size) (details : Bool) :
    (run size { detailsShown := details } (strokes.map .key)).1.session =
      Session.after (LineMode.keys strokes) := by
  rw [run_session, keys_types types known size rfl rfl, LineMode.keys_types types known]
  rfl

end

end Calculator
