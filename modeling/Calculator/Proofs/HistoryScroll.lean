import Mathlib.Data.List.Basic
import Calculator.Proofs.HistoryItems

namespace Calculator

theorem Session.press_history (s : Session) (key : Key) :
    (s.press key).history = if key = .clear then []
      else if key = .equals then s.history ++ s.recorded?.toList else s.history := by
  cases key with
  | equals => exact equals_history s
  | clear => rfl
  | digit c => rfl
  | operator op => rfl
  | percent => rfl
  | backspace => rfl

theorem Session.press_equals_history (s : Session) :
    (s.press .equals).display = .input ∧ (s.press .equals).history ≠ [] ∨
      (s.press .equals).display = .error ∧ (s.press .equals).history = s.history := by
  change s.equals.display = .input ∧ s.equals.history ≠ [] ∨
    s.equals.display = .error ∧ s.equals.history = s.history
  cases recorded : s.recorded? with
  | none =>
      rw [equals_of_none recorded]
      exact Or.inr ⟨rfl, rfl⟩
  | some entry =>
      rw [equals_of_some recorded]
      exact Or.inl ⟨rfl, by simp⟩

namespace FullScreen

namespace App

def Succeeds (app : App) (moment : Moment) : Prop :=
  app.deed moment = .press .equals ∧ (app.session.press .equals).display = .input

/-- The moment is a clear, a scroll of the history or a draw of the main screen. -/
def Interrupts (app : App) (moment : Moment) : Prop :=
  app.deed moment = .press .clear ∨ (∃ direction, app.deed moment = .scroll direction) ∨
    ∃ size, app.deed moment = .count size

/-- An equals press has succeeded and nothing has interrupted since. -/
def Pending (details : Bool) (moments : List Moment) : Prop :=
  ∃ before moment rest, moments = before ++ moment :: rest ∧
    (after details before).Succeeds moment ∧
    ∀ front next back, rest = front ++ next :: back →
      ¬ (after details (before ++ moment :: front)).Interrupts next

/-- A draw of the main screen has met a history that was not empty. -/
def Counted (details : Bool) (moments : List Moment) : Prop :=
  ∃ before moment rest, moments = before ++ moment :: rest ∧
    (after details before).session.history ≠ [] ∧
    ∃ size, (after details before).deed moment = .count size

theorem split_append {moments before rest : List Moment} {last moment : Moment} :
    moments ++ [last] = before ++ moment :: rest ↔
      (before = moments ∧ moment = last ∧ rest = []) ∨
        ∃ init, rest = init ++ [last] ∧ moments = before ++ moment :: init := by
  constructor
  · intro split
    rcases rest.eq_nil_or_concat with rfl | ⟨init, final, rfl⟩
    · obtain ⟨same, final⟩ := List.append_inj' split rfl
      exact Or.inl ⟨same.symm, (List.singleton_inj.mp final).symm, rfl⟩
    · rw [List.concat_eq_append, ← List.cons_append, ← List.append_assoc] at split
      obtain ⟨same, final⟩ := List.append_inj' split rfl
      refine Or.inr ⟨init, ?_, same⟩
      rw [List.concat_eq_append, List.singleton_inj.mp final]
  · rintro (⟨rfl, rfl, rfl⟩ | ⟨init, rfl, rfl⟩)
    · rfl
    · simp

theorem pending_append (details : Bool) (moments : List Moment) (last : Moment) :
    Pending details (moments ++ [last]) ↔ (after details moments).Succeeds last ∨
      Pending details moments ∧ ¬ (after details moments).Interrupts last := by
  constructor
  · rintro ⟨before, moment, rest, split, success, undisturbed⟩
    rcases split_append.mp split with ⟨rfl, rfl, rfl⟩ | ⟨init, rfl, rfl⟩
    · exact Or.inl success
    · refine Or.inr ⟨⟨before, moment, init, rfl, success, ?_⟩, undisturbed init last [] rfl⟩
      rintro front next back rfl
      exact undisturbed front next (back ++ [last]) (by simp)
  -- what could interrupt since the success is the last moment or one before it
  · rintro (success | ⟨⟨before, moment, rest, rfl, success, undisturbed⟩, calm⟩)
    · exact ⟨moments, last, [], rfl, success, by simp⟩
    · refine ⟨before, moment, rest ++ [last], by simp, success, ?_⟩
      intro front next back split
      rcases split_append.mp split with ⟨rfl, rfl, rfl⟩ | ⟨init, rfl, rfl⟩
      · exact calm
      · exact undisturbed front next init rfl

theorem counted_append (details : Bool) (moments : List Moment) (last : Moment) :
    Counted details (moments ++ [last]) ↔ Counted details moments ∨
      (after details moments).session.history ≠ [] ∧
        ∃ size, (after details moments).deed last = .count size := by
  constructor
  · rintro ⟨before, moment, rest, split, met⟩
    rcases split_append.mp split with ⟨rfl, rfl, rfl⟩ | ⟨init, rfl, rfl⟩
    · exact Or.inr met
    · exact Or.inl ⟨before, moment, init, rfl, met⟩
  · rintro (⟨before, moment, rest, rfl, met⟩ | met)
    · exact ⟨before, moment, rest ++ [last], by simp, met⟩
    · exact ⟨moments, last, [], rfl, met⟩

variable {app : App}

theorem press_counters (app : App) (key : Key) :
    (app.press key).historyLines = app.historyLines ∧
      (app.press key).historyScroll = if key = .clear then 0 else app.historyScroll := by
  unfold press
  dsimp only
  split_ifs <;> exact ⟨rfl, rfl⟩

theorem press_followNewest (app : App) (key : Key) :
    (app.press key).followNewest = true ↔ app.followNewest = true ∨
      key = .equals ∧ (app.session.press .equals).display = .input := by
  by_cases pressed : key = .equals
  · subst pressed
    have grown := Session.press_history app.session .equals
    cases recorded : app.session.recorded? with
    | none =>
        have error : (app.session.press .equals).display = .error :=
          (Session.equals_error_iff _).mpr recorded
        simp [press, grown, recorded, error]
    | some entry =>
        have input : (app.session.press .equals).display = .input := by
          change app.session.equals.display = .input
          rw [Session.equals_of_some recorded]
        simp [press, grown, recorded, input]
  · by_cases cleared : key = .clear
    · simp [press, cleared]
    · have kept := Session.press_history app.session key
      rw [if_neg cleared, if_neg pressed] at kept
      simp [press, cleared, pressed, kept]

theorem scrollHistory_followNewest (app : App) (direction : Direction) :
    (app.scrollHistory direction).followNewest = false := by
  cases direction <;> rfl

theorem deed_draw (main : app.helpOpen = false) {size : Size} (fit : fits size = true) :
    app.deed (.draw size) = .count size := by
  simp [deed, main, fit]

theorem draw_of_count {moment : Moment} {size : Size} (count : app.deed moment = .count size) :
    app.helpOpen = false ∧ fits size = true ∧ moment = .draw size := by
  unfold deed at count
  split at count
  case isTrue => cases count
  case isFalse closed =>
    refine ⟨Bool.eq_false_iff.mpr closed, ?_⟩
    split at count
    case h_1 => split at count <;> cases count
    case h_2 => cases count
    case h_3 => cases count
    case h_4 =>
      split at count
      case isTrue fit =>
        cases count
        exact ⟨fit, rfl⟩
      case isFalse => cases count

section

variable {moment : Moment} {key : Key}

theorem succeeds_of_press (press : app.deed moment = .press key) :
    app.Succeeds moment ↔ key = .equals ∧ (app.session.press .equals).display = .input := by
  rw [Succeeds, press, Deed.press.injEq]

theorem interrupts_of_press (press : app.deed moment = .press key) :
    app.Interrupts moment ↔ key = .clear := by
  simp [Interrupts, press]

end

theorem follows_meet_iff (app : App) (moment : Moment) :
    (app.meet moment).followNewest = true ∧ (app.meet moment).session.history ≠ [] ↔
      app.Succeeds moment ∨
        (app.followNewest = true ∧ app.session.history ≠ []) ∧ ¬ app.Interrupts moment := by
  cases deed : app.deed moment with
  | press key =>
      rw [succeeds_of_press deed, interrupts_of_press deed, meet_of_press deed, press_followNewest,
        press_session]
      by_cases pressed : key = .equals
      · subst pressed
        rcases app.session.press_equals_history with ⟨input, grown⟩ | ⟨error, kept⟩
        · simp [input, grown]
        · simp [error, kept]
      · by_cases cleared : key = .clear
        · simp [cleared, Session.press_history]
        · simp [pressed, cleared, Session.press_history]
  | scroll direction =>
      simp [meet_of_scroll deed, scrollHistory_followNewest, Succeeds, Interrupts, deed]
  | count size =>
      obtain ⟨main, fit, rfl⟩ := draw_of_count deed
      -- without a history the request stands, but there is nothing to follow
      by_cases empty : app.session.history = []
      · simp [meet_draw_of_empty main fit empty, empty, Succeeds, deed]
      · simp [meet_draw_of_nonempty main fit empty, Succeeds, Interrupts, deed]
  | aside =>
      have alike := meet_of_aside deed
      simp [alike.followNewest, alike.session, Succeeds, Interrupts, deed]

/-- A success is pending exactly when there is a history and its newest lines are asked for. -/
theorem pending_iff (details : Bool) (moments : List Moment) :
    Pending details moments ↔ (after details moments).followNewest = true ∧
      (after details moments).session.history ≠ [] := by
  induction moments using List.reverseRecOn with
  | nil => simp [Pending, after]
  | append_singleton moments moment ih =>
      rw [pending_append, ih, after_append, follows_meet_iff]

theorem lines_pos {details : Bool} {moments : List Moment}
    (recorded : (after details moments).session.history ≠ []) {width : Nat} (positive : 0 < width) :
    0 < (HistoryPanel.lines width (after details moments).session.history).length := by
  obtain ⟨entry, member⟩ := List.exists_mem_of_ne_nil _ recorded
  obtain ⟨nonempty, known⟩ := after_recorded member
  obtain ⟨line, shown⟩ := List.exists_mem_of_ne_nil _
    (HistoryPanel.wrap_spaced_nonempty positive nonempty known)
  exact List.length_pos_of_mem (List.mem_flatMap.mpr ⟨entry, member, shown⟩)

theorem scrollHistory_counters (app : App) (direction : Direction) :
    (app.scrollHistory direction).historyLines = app.historyLines ∧
      (app.scrollHistory direction).historyScroll ≤ max app.historyScroll app.historyLines := by
  cases direction with
  | up => exact ⟨rfl, by simp only [scrollHistory]; omega⟩
  | down => exact ⟨rfl, by simp only [scrollHistory, maxHistoryScroll]; omega⟩

theorem counted_iff (details : Bool) (moments : List Moment) :
    (Counted details moments ↔ 0 < (after details moments).historyLines) ∧
      ((after details moments).historyLines = 0 → (after details moments).historyScroll = 0) := by
  induction moments using List.reverseRecOn with
  | nil => simp [Counted, after]
  | append_singleton moments moment ih =>
      obtain ⟨counted, unscrolled⟩ := ih
      rw [counted_append, counted, after_append]
      cases deed : (after details moments).deed moment with
      | press key =>
          obtain ⟨lines, scroll⟩ := press_counters (after details moments) key
          rw [meet_of_press deed, lines, scroll]
          refine ⟨by simp, fun none => ?_⟩
          rw [unscrolled none, ite_self]
      | scroll direction =>
          obtain ⟨lines, scroll⟩ := scrollHistory_counters (after details moments) direction
          rw [meet_of_scroll deed, lines]
          refine ⟨by simp, fun none => ?_⟩
          rw [unscrolled none, none] at scroll
          exact Nat.le_zero.mp scroll
      | count size =>
          obtain ⟨main, fit, rfl⟩ := draw_of_count deed
          -- only here is it needed that recorded expressions take a line at least
          by_cases empty : (after details moments).session.history = []
          · rw [meet_draw_of_empty main fit empty]
            exact ⟨by simp [empty], unscrolled⟩
          · have positive := lines_pos empty
              (HistoryPanel.wrapWidth_pos fit (after details moments).detailsShown)
            rw [meet_draw_of_nonempty main fit empty]
            refine ⟨?_, fun none => absurd none (Nat.ne_of_gt positive)⟩
            exact iff_of_true (Or.inr ⟨empty, size, rfl⟩) positive
      | aside =>
          have alike := meet_of_aside deed
          rw [alike.historyLines, alike.historyScroll]
          exact ⟨by simp, unscrolled⟩

section

variable {size : Size} (main : app.helpOpen = false) (fit : fits size = true)
include main fit

theorem meet_draw_stays (empty : app.session.history = []) :
    (app.meet (.draw size)).session.history = [] ∧
      (app.meet (.draw size)).historyLines = app.historyLines ∧
      (app.meet (.draw size)).historyScroll = app.historyScroll := by
  rw [meet_draw_of_empty main fit empty]
  exact ⟨empty, rfl, rfl⟩

theorem meet_draw_fits (nonempty : app.session.history ≠ []) :
    (app.meet (.draw size)).session.history = app.session.history ∧
      (app.meet (.draw size)).historyLines = (HistoryPanel.lines
        (HistoryPanel.wrapWidth (historyArea size app.detailsShown)) app.session.history).length ∧
      (app.meet (.draw size)).historyScroll ≤ (app.meet (.draw size)).maxHistoryScroll := by
  rw [meet_draw_of_nonempty main fit nonempty]
  refine ⟨rfl, rfl, ?_⟩
  dsimp only [maxHistoryScroll]
  split_ifs
  · exact Nat.le_refl _
  · exact Nat.min_le_right _ _

end

/-- After a draw of the main screen the counters fit the history, unless it is empty and some draw
counted one before it was cleared; then they stay as they were. -/
theorem counters_fit_iff {details : Bool} {moments : List Moment} {size : Size}
    (main : (after details moments).helpOpen = false) (fit : fits size = true) :
    let app := after details moments
    let area := historyArea size app.detailsShown
    let drawn := after details (moments ++ [.draw size])
    let lines := (HistoryPanel.lines (HistoryPanel.wrapWidth area) drawn.session.history).length
    (drawn.historyLines = lines ∧ drawn.historyScroll ≤ drawn.historyLines - drawn.listHeight ∧
        drawn.historyScroll ≤ drawn.maxHistoryScroll ↔
      drawn.session.history ≠ [] ∨ ¬ Counted details moments) ∧
    (drawn.session.history = [] →
      drawn.historyLines = app.historyLines ∧ drawn.historyScroll = app.historyScroll) := by
  intro app area drawn lines
  have met : drawn = app.meet (.draw size) := after_append details moments _
  obtain ⟨counted, unscrolled⟩ := counted_iff details moments
  by_cases empty : app.session.history = []
  · obtain ⟨none, count, scroll⟩ := meet_draw_stays main fit empty
    rw [← met] at none count scroll
    have no_lines : lines = 0 := by
      simp only [lines, none]
      rfl
    refine ⟨?_, fun _ => ⟨count, scroll⟩⟩
    rw [maxHistoryScroll, count, scroll, no_lines, counted]
    constructor
    · rintro ⟨zero, _⟩
      exact Or.inr (Nat.not_lt.mpr (Nat.le_of_eq zero))
    · rintro (recorded | uncounted)
      · exact absurd none recorded
      · have zero : app.historyLines = 0 := Nat.eq_zero_of_not_pos uncounted
        have top : app.historyScroll = 0 := unscrolled zero
        rw [zero, top]
        exact ⟨rfl, Nat.zero_le _, Nat.zero_le _⟩
  · obtain ⟨same, count, scroll⟩ := meet_draw_fits main fit empty
    rw [← met] at same count scroll
    have recorded : drawn.session.history ≠ [] := by rw [same]; exact empty
    refine ⟨iff_of_true ⟨?_, scroll, scroll⟩ (Or.inl recorded), fun none => absurd none recorded⟩
    simp only [lines, same]
    exact count

theorem counters_fit_taller :
    let moments := "1=======".toList.map (fun c => Moment.key (.char c)) ++ [.draw ⟨50, 19⟩]
    let drawn := after true (moments ++ [.draw ⟨50, 20⟩])
    (after true moments).helpOpen = false ∧ fits ⟨50, 20⟩ = true ∧
      (after true moments).historyScroll = 2 ∧ drawn.historyLines = 7 ∧ drawn.listHeight = 6 ∧
      drawn.historyScroll ≤ 7 - 6 := by
  intro moments drawn
  have main : (after true moments).helpOpen = false := by decide +kernel
  have fit : fits ⟨50, 20⟩ = true := by decide
  have recorded : (after true (moments ++ [.draw ⟨50, 20⟩])).session.history ≠ [] := by
    decide +kernel
  have before : (after true moments).historyScroll = 2 := by decide +kernel
  have lines : drawn.historyLines = 7 := by decide +kernel
  have height : drawn.listHeight = 6 := by decide +kernel
  obtain ⟨_, bound, _⟩ := (counters_fit_iff main fit).1.mpr (Or.inl recorded)
  change drawn.historyScroll ≤ drawn.historyLines - drawn.listHeight at bound
  rw [lines, height] at bound
  exact ⟨main, fit, before, lines, height, bound⟩

/-- The line of a calculation is still counted after it was cleared away. -/
theorem counters_stale_after_clear :
    let moments :=
      [.draw ⟨50, 19⟩, .key (.char '7'), .key (.char '='), .draw ⟨50, 19⟩, .key .delete]
    let drawn := after false (moments ++ [.draw ⟨50, 19⟩])
    (after false moments).helpOpen = false ∧ fits ⟨50, 19⟩ = true ∧
      drawn.session.history = [] ∧ drawn.historyLines = 1 ∧
      ¬ drawn.historyLines = (HistoryPanel.lines 17 drawn.session.history).length := by
  decide +kernel

/-- The next draw of the main screen, and no later one, takes a pending success to the bottom. -/
theorem scroll_after_draw {details : Bool} {moments : List Moment} {size : Size}
    (main : (after details moments).helpOpen = false) (fit : fits size = true) :
    let app := after details moments
    let area := historyArea size app.detailsShown
    let drawn := after details (moments ++ [.draw size])
    let lines := (HistoryPanel.items (HistoryPanel.wrapWidth area) app.session.history).length
    (Pending details moments →
      drawn.historyLines = lines ∧ drawn.listHeight = area.inner.height ∧
        drawn.historyScroll = lines - area.inner.height ∧ drawn.followNewest = false) ∧
      (¬ Pending details moments → app.session.history ≠ [] →
        drawn.historyScroll = min app.historyScroll (lines - area.inner.height)) ∧
      ¬ Pending details (moments ++ [.draw size]) := by
  intro app area drawn lines
  have met : drawn = app.meet (.draw size) := after_append details moments _
  have count : lines =
      (HistoryPanel.lines (HistoryPanel.wrapWidth area) app.session.history).length :=
    HistoryPanel.items_length _ _
  refine ⟨?_, ?_, ?_⟩
  · intro pending
    obtain ⟨follows, recorded⟩ := (pending_iff details moments).mp pending
    rw [met, meet_draw_of_nonempty main fit recorded, count]
    exact ⟨rfl, rfl, if_pos follows, rfl⟩
  · intro settled recorded
    have still : ¬ app.followNewest = true := fun follows =>
      settled ((pending_iff details moments).mpr ⟨follows, recorded⟩)
    rw [met, meet_draw_of_nonempty main fit recorded, count]
    exact if_neg still
  · rw [pending_append]
    rintro (⟨press, _⟩ | ⟨_, calm⟩)
    · rw [deed_draw main fit] at press
      cases press
    · exact calm (Or.inr (Or.inr ⟨size, deed_draw main fit⟩))

theorem scroll_after_help :
    let moments := "1=======".toList.map (fun c => Moment.key (.char c)) ++
      [.key (.function 1), .draw ⟨50, 19⟩, .key .escape, .draw ⟨20, 5⟩, .key (.char '+'),
        .key .enter]
    let drawn := after true (moments ++ [.draw ⟨50, 19⟩])
    (after true moments).helpOpen = false ∧ fits ⟨50, 19⟩ = true ∧ Pending true moments ∧
      (after true moments).session.shown = "Error".toList ∧ (after true moments).historyScroll = 0 ∧
      drawn.historyScroll = 7 - 5 ∧ drawn.followNewest = false := by
  intro moments drawn
  have main : (after true moments).helpOpen = false := by decide +kernel
  have fit : fits ⟨50, 19⟩ = true := by decide
  have pending : Pending true moments := (pending_iff true moments).mpr (by decide +kernel)
  have lines : drawn.historyLines = 7 := by decide +kernel
  have height : drawn.listHeight = 5 := by decide +kernel
  obtain ⟨count, panel, scroll, still⟩ := (scroll_after_draw main fit).1 pending
  change drawn.historyLines = _ at count
  change drawn.listHeight = _ at panel
  rw [← count, ← panel, lines, height] at scroll
  exact ⟨main, fit, pending, by decide +kernel, by decide +kernel, scroll, still⟩

end App

end FullScreen

end Calculator
