import Calculator.Proofs.HistoryItems

/-! Redraws of the full-screen calculator.

The loop draws, waits a moment for an event, and draws again if none came. A draw changes the
counters that it shows, but what it leaves it would leave again, so a second draw at the same size is
the first one over. Frames of a run can therefore be told without the redraws: those add copies of
frames and nothing else. -/

namespace Calculator.FullScreen

/-- One turn of the loop: a draw at the size that the terminal has, and the event for which the wait
after it ended, if it ended for one. -/
structure Turn where
  size : Size
  event : Option TerminalEvent
  deriving DecidableEq, Repr

def Turn.leave (turn : Turn) (drawn : App) : App :=
  match turn.event with
  | some event => drawn.handle event
  | none => drawn

/-- What the draws of the loop leave and show. The one that finds the calculator quitting is the last. -/
def frames : App → List Turn → List (App × Screen)
  | _, [] => []
  | app, turn :: rest =>
    let drawn := app.draw turn.size
    drawn :: if drawn.1.quitting then [] else frames (turn.leave drawn.1) rest

def reached : App → List Turn → App
  | app, [] => app
  | app, turn :: rest =>
    let drawn := app.settle turn.size
    if drawn.quitting then drawn else reached (turn.leave drawn) rest

/-- The turns without those that end for no event, where the next draw has the same size. -/
def withoutRedraws : List Turn → List Turn
  | [] => []
  | [turn] => [turn]
  | turn :: next :: rest =>
    if turn.event = none ∧ turn.size = next.size then withoutRedraws (next :: rest)
    else turn :: withoutRedraws (next :: rest)

/-- The second list is the first one with elements repeated in their places. -/
inductive Repeats {β : Type} : List β → List β → Prop
  | nil : Repeats [] []
  | cons (b : β) {bs more : List β} (tail : Repeats bs more) : Repeats (b :: bs) (b :: more)
  | again {b : β} {bs more : List β} (tail : Repeats (b :: bs) more) : Repeats (b :: bs) (b :: more)

namespace App

theorem settle_settle (app : App) (size : Size) : (app.settle size).settle size = app.settle size := by
  change (app.meet (.draw size)).meet (.draw size) = app.meet (.draw size)
  cases shown : app.helpOpen with
  | true =>
      rw [meet_help shown (.draw size)]
      refine (meet_help ?_ _).trans ?_
      · exact shown
      · simp only [clampHelp, Nat.min_assoc, Nat.min_self]
  | false =>
      cases fit : fits size with
      | false =>
          have small : ¬ fits size = true := Bool.eq_false_iff.mp fit
          rw [(meet_main shown (.draw size)).trans (if_neg small)]
          refine (meet_main ?_ _).trans (if_neg small)
          exact shown
      | true =>
          by_cases empty : app.session.history = []
          · rw [meet_draw_of_empty shown fit empty]
            refine (meet_draw_of_empty ?_ fit ?_).trans rfl
            · exact shown
            · exact empty
          · rw [meet_draw_of_nonempty shown fit empty]
            refine (meet_draw_of_nonempty ?_ fit ?_).trans ?_
            · exact shown
            · exact empty
            -- the request is gone, so the second draw bounds the scroll as the first one did
            · cases app.followNewest <;> simp

theorem draw_draw (app : App) (size : Size) : (app.draw size).1.draw size = app.draw size := by
  simp only [draw, settle_settle]

end App

theorem Repeats.head {β : Type} {b : β} {bs more : List β} (repeats : Repeats bs (b :: more)) :
    ∃ tail, bs = b :: tail := by
  cases repeats with
  | cons _ tail => exact ⟨_, rfl⟩
  | again tail => exact ⟨_, rfl⟩

section

variable {app : App} {turn : Turn}

theorem frames_of_quitting (quitting : (app.settle turn.size).quitting) (rest : List Turn) :
    frames app (turn :: rest) = [app.draw turn.size] :=
  congrArg _ (if_pos quitting)

theorem frames_of_running (running : ¬ (app.settle turn.size).quitting) (rest : List Turn) :
    frames app (turn :: rest) =
      app.draw turn.size :: frames (turn.leave (app.settle turn.size)) rest :=
  congrArg _ (if_neg running)

theorem reached_of_quitting (quitting : (app.settle turn.size).quitting) (rest : List Turn) :
    reached app (turn :: rest) = app.settle turn.size :=
  if_pos quitting

theorem reached_of_running (running : ¬ (app.settle turn.size).quitting) (rest : List Turn) :
    reached app (turn :: rest) = reached (turn.leave (app.settle turn.size)) rest :=
  if_neg running

variable {next : Turn} (same : turn.size = next.size)
include same

theorem frames_settle (rest : List Turn) :
    frames (app.settle turn.size) (next :: rest) = frames app (next :: rest) := by
  have drawn : (app.settle turn.size).draw next.size = app.draw next.size := same ▸ app.draw_draw _
  rw [frames, frames, drawn]

theorem reached_settle (rest : List Turn) :
    reached (app.settle turn.size) (next :: rest) = reached app (next :: rest) := by
  simp only [reached, same, App.settle_settle]

end

theorem frames_withoutRedraws (app : App) (turns : List Turn) :
    Repeats (frames app (withoutRedraws turns)) (frames app turns) := by
  induction turns using withoutRedraws.induct generalizing app with
  | case1 => exact .nil
  | case2 turn =>
      rw [withoutRedraws, frames]
      refine .cons _ ?_
      split <;> exact .nil
  | case3 turn next rest redraw ih =>
      obtain ⟨idle, same⟩ := redraw
      rw [withoutRedraws, if_pos ⟨idle, same⟩]
      have later := ih app
      by_cases quitting : (app.settle turn.size).quitting
      · rw [frames_of_quitting (same ▸ quitting)] at later
        rw [frames_of_quitting quitting, same]
        exact later
      -- no event came, so the next draw meets what this one has left
      · have stays : turn.leave (app.settle turn.size) = app.settle turn.size := by
          rw [Turn.leave, idle]
        have drawn : frames app (next :: rest) = app.draw next.size :: _ := rfl
        obtain ⟨tail, found⟩ := Repeats.head (drawn ▸ later)
        rw [found] at later
        rw [frames_of_running quitting, stays, frames_settle same, found, same]
        exact .again later
  | case4 turn next rest fresh ih =>
      rw [withoutRedraws, if_neg fresh, frames, frames]
      refine .cons _ ?_
      split
      · exact .nil
      · exact ih _

theorem reached_withoutRedraws (app : App) (turns : List Turn) :
    reached app (withoutRedraws turns) = reached app turns := by
  induction turns using withoutRedraws.induct generalizing app with
  | case1 => rfl
  | case2 turn => rfl
  | case3 turn next rest redraw ih =>
      obtain ⟨idle, same⟩ := redraw
      rw [withoutRedraws, if_pos ⟨idle, same⟩, ih]
      by_cases quitting : (app.settle turn.size).quitting
      · rw [reached_of_quitting quitting, reached_of_quitting (same ▸ quitting), same]
      · have stays : turn.leave (app.settle turn.size) = app.settle turn.size := by
          rw [Turn.leave, idle]
        rw [reached_of_running quitting, stays, reached_settle same]
  | case4 turn next rest fresh ih =>
      rw [withoutRedraws, if_neg fresh, reached, reached, ih]

section

variable {size : Size} {app : App}

theorem run_settle (events : List TerminalEvent) :
    run size (app.settle size) events = run size app events := by
  cases events with
  | nil => exact app.draw_draw size
  | cons event rest => simp only [run, App.settle_settle]

theorem run_of_quitting (quitting : (app.settle size).quitting) (events : List TerminalEvent) :
    run size app events = app.draw size := by
  cases events with
  | nil => rfl
  | cons event rest => exact if_pos quitting

theorem run_of_running (running : ¬ (app.settle size).quitting) (event : TerminalEvent)
    (rest : List TerminalEvent) :
    run size app (event :: rest) = run size ((app.settle size).handle event) rest :=
  if_neg running

end

theorem frames_run (app : App) (size : Size) (turns : List Turn)
    (fixed : ∀ turn ∈ turns, turn.size = size) :
    (frames app (turns ++ [⟨size, none⟩])).getLast? =
      some (run size app (turns.filterMap Turn.event)) := by
  induction turns generalizing app with
  | nil => simp [frames, run]
  | cons turn rest ih =>
      obtain ⟨same, others⟩ := List.forall_mem_cons.mp fixed
      subst same
      by_cases quitting : (app.settle turn.size).quitting
      · rw [List.cons_append, frames_of_quitting quitting, run_of_quitting quitting]
        rfl
      · have later := ih (turn.leave (app.settle turn.size)) others
        have shown : run turn.size (turn.leave (app.settle turn.size)) (rest.filterMap Turn.event) =
            run turn.size app ((turn :: rest).filterMap Turn.event) := by
          cases event : turn.event with
          | none => rw [Turn.leave, event, List.filterMap_cons_none event, run_settle]
          | some answered =>
              rw [Turn.leave, event, List.filterMap_cons_some event, run_of_running quitting]
        rw [List.cons_append, frames_of_running quitting, List.getLast?_cons, later, shown]
        rfl

/-- A second draw at the same size leaves the state as the first one left it and shows the same screen.
So the frames of the loop are those that it has without redraws, some of them repeated, it goes on
from the same state, and it ends with the frame of the program's run. -/
theorem redraws_change_nothing :
    (∀ (app : App) (size : Size), (app.draw size).1.draw size = app.draw size) ∧
      (∀ (app : App) (turns : List Turn),
        Repeats (frames app (withoutRedraws turns)) (frames app turns) ∧
          reached app (withoutRedraws turns) = reached app turns) ∧
      ∀ (app : App) (size : Size) (turns : List Turn), (∀ turn ∈ turns, turn.size = size) →
        (frames app (turns ++ [⟨size, none⟩])).getLast? =
          some (run size app (turns.filterMap Turn.event)) :=
  ⟨App.draw_draw, fun app turns => ⟨frames_withoutRedraws app turns, reached_withoutRedraws app turns⟩,
    frames_run⟩

end Calculator.FullScreen
