import Mathlib.Algebra.Order.Group.Int
import Mathlib.Logic.Function.Iterate
import Calculator.FullScreen.App

namespace Calculator.FullScreen.App

def paged (app : App) (direction : Direction) (times : Nat) : App :=
  (fun app => app.scrollHistory direction)^[times] app

/-- The lines from the scroll on, as many as the panel has rows. -/
def InView (app : App) (line : Nat) : Prop :=
  app.historyScroll ≤ line ∧ line < app.historyScroll + app.listHeight

/-- Counters that fit their words, of a panel with a row at least that is scrolled no further than to
its last page. -/
structure Bounded (app : App) : Prop where
  rows : 0 < app.listHeight
  height : app.listHeight ≤ counterLimit
  lines : app.historyLines ≤ counterLimit
  scroll : app.historyScroll ≤ app.maxHistoryScroll

/-- The scroll that whole numbers of any size would give. -/
def target (app : App) : Direction → Int
  | .up => max (app.historyScroll - max (app.listHeight - 1) 1) 0
  | .down => min (app.historyScroll + max (app.listHeight - 1) 1)
      (max (app.historyLines - app.listHeight) 0)

variable {app : App}

@[simp] theorem scrollHistory_listHeight (app : App) (direction : Direction) :
    (app.scrollHistory direction).listHeight = app.listHeight := by
  cases direction <;> rfl

@[simp] theorem scrollHistory_historyLines (app : App) (direction : Direction) :
    (app.scrollHistory direction).historyLines = app.historyLines := by
  cases direction <;> rfl

theorem page_pos (app : App) : 0 < app.page := Nat.lt_of_lt_of_le Nat.one_pos (Nat.le_max_right _ _)

theorem paged_succ (app : App) (direction : Direction) (times : Nat) :
    app.paged direction (times + 1) = (app.paged direction times).scrollHistory direction :=
  Function.iterate_succ_apply' _ _ _

namespace Bounded

variable (bounded : app.Bounded)
include bounded

theorem page_le : app.page ≤ app.listHeight := by
  have rows := bounded.rows
  simp only [page]
  omega

theorem scroll_add_page_le : app.historyScroll + app.page ≤ counterLimit := by
  have room : 1 ≤ counterLimit := by decide
  have rows := bounded.rows
  have height := bounded.height
  have lines := bounded.lines
  have within := bounded.scroll
  simp only [maxHistoryScroll] at within
  simp only [page]
  omega

theorem scrollHistory_down : (app.scrollHistory .down).historyScroll =
    min (app.historyScroll + app.page) app.maxHistoryScroll := by
  have room := bounded.scroll_add_page_le
  simp only [scrollHistory, Nat.min_eq_left room]

theorem scrollHistory_target (direction : Direction) :
    ((app.scrollHistory direction).historyScroll : Int) = app.target direction := by
  have rows := bounded.rows
  cases direction with
  | up =>
      simp only [scrollHistory, target, page]
      omega
  | down =>
      rw [bounded.scrollHistory_down]
      simp only [target, page, maxHistoryScroll]
      omega

theorem scrollHistory (direction : Direction) : (app.scrollHistory direction).Bounded where
  rows := by simpa using bounded.rows
  height := by simpa using bounded.height
  lines := by simpa using bounded.lines
  scroll := by
    have within := bounded.scroll
    simp only [maxHistoryScroll, scrollHistory_historyLines, scrollHistory_listHeight] at within ⊢
    cases direction with
    | up => exact Nat.le_trans (Nat.sub_le _ _) within
    | down => exact Nat.min_le_right _ _

theorem view_overlaps (direction : Direction) (two : 2 ≤ app.listHeight) :
    ∃ line, app.InView line ∧ (app.scrollHistory direction).InView line ∧
      (0 < app.historyLines → line < app.historyLines) := by
  have within := bounded.scroll
  simp only [InView, scrollHistory_listHeight]
  simp only [maxHistoryScroll] at within
  cases direction with
  | up =>
      refine ⟨app.historyScroll, ?_⟩
      simp only [App.scrollHistory, page]
      omega
  | down =>
      refine ⟨(app.scrollHistory .down).historyScroll, ?_⟩
      rw [bounded.scrollHistory_down]
      simp only [page, maxHistoryScroll]
      omega

theorem paged (direction : Direction) (times : Nat) : (app.paged direction times).Bounded := by
  induction times with
  | zero => exact bounded
  | succ times ih =>
      rw [paged_succ]
      exact ih.scrollHistory direction

end Bounded

theorem paged_counters (app : App) (direction : Direction) (times : Nat) :
    (app.paged direction times).listHeight = app.listHeight ∧
      (app.paged direction times).historyLines = app.historyLines := by
  induction times with
  | zero => exact ⟨rfl, rfl⟩
  | succ times ih =>
      rw [paged_succ, scrollHistory_listHeight, scrollHistory_historyLines]
      exact ih

theorem paged_maxHistoryScroll (app : App) (direction : Direction) (times : Nat) :
    (app.paged direction times).maxHistoryScroll = app.maxHistoryScroll := by
  obtain ⟨height, lines⟩ := paged_counters app direction times
  rw [maxHistoryScroll, maxHistoryScroll, height, lines]

theorem paged_page (app : App) (direction : Direction) (times : Nat) :
    (app.paged direction times).page = app.page := by
  rw [page, page, (paged_counters app direction times).1]

theorem paged_up (app : App) (times : Nat) :
    (app.paged .up times).historyScroll = app.historyScroll - times * app.page := by
  induction times with
  | zero => simp [App.paged]
  | succ times ih =>
      calc
        (app.paged .up (times + 1)).historyScroll =
            (app.paged .up times).historyScroll - (app.paged .up times).page := by
          rw [paged_succ]
          rfl
        _ = app.historyScroll - (times + 1) * app.page := by
          rw [ih, paged_page, Nat.sub_sub, Nat.succ_mul]

theorem paged_down (bounded : app.Bounded) (times : Nat) :
    (app.paged .down times).historyScroll =
      min (app.historyScroll + times * app.page) app.maxHistoryScroll := by
  induction times with
  | zero =>
      have within := bounded.scroll
      simp only [Nat.zero_mul, Nat.add_zero, Nat.min_eq_left within]
      rfl
  | succ times ih =>
      rw [paged_succ, (bounded.paged .down times).scrollHistory_down, ih, paged_page,
        paged_maxHistoryScroll, Nat.succ_mul]
      omega

theorem paged_down_reaches (bounded : app.Bounded) {times : Nat}
    (enough : app.maxHistoryScroll - app.historyScroll ≤ times) :
    (app.paged .down times).historyScroll = app.maxHistoryScroll := by
  have far : times ≤ times * app.page := Nat.le_mul_of_pos_right times app.page_pos
  rw [paged_down bounded]
  omega

theorem paged_up_reaches {times : Nat} (enough : app.historyScroll ≤ times) :
    (app.paged .up times).historyScroll = 0 := by
  have far : times ≤ times * app.page := Nat.le_mul_of_pos_right times app.page_pos
  rw [paged_up]
  omega

theorem paged_down_covers (bounded : app.Bounded) {line : Nat} (low : app.historyScroll ≤ line)
    (high : line < app.historyLines) : ∃ times, (app.paged .down times).InView line := by
  -- as many pages as fit between the scroll and the line
  refine ⟨(line - app.historyScroll) / app.page, ?_⟩
  have near : (line - app.historyScroll) / app.page * app.page ≤ line - app.historyScroll :=
    Nat.div_mul_le_self _ _
  have next : line - app.historyScroll <
      (line - app.historyScroll) / app.page * app.page + app.page :=
    Nat.lt_div_mul_add app.page_pos
  have short := bounded.page_le
  rw [InView, paged_down bounded, (paged_counters app .down _).1, maxHistoryScroll]
  omega

theorem paged_up_covers (bounded : app.Bounded) {line : Nat}
    (high : line < app.historyScroll + app.listHeight) :
    ∃ times, (app.paged .up times).InView line := by
  rcases Nat.lt_or_ge line app.historyScroll with above | below
  -- the least number of pages that takes the scroll up to the line
  · refine ⟨(app.historyScroll - line + (app.page - 1)) / app.page, ?_⟩
    have near : (app.historyScroll - line + (app.page - 1)) / app.page * app.page ≤
        app.historyScroll - line + (app.page - 1) :=
      Nat.div_mul_le_self _ _
    have next : app.historyScroll - line + (app.page - 1) <
        (app.historyScroll - line + (app.page - 1)) / app.page * app.page + app.page :=
      Nat.lt_div_mul_add app.page_pos
    have short := bounded.page_le
    rw [InView, paged_up, (paged_counters app .up _).1]
    omega
  · exact ⟨0, below, high⟩

/-- Paging down goes to the last page and paging up to the top, both for good, and on the way every
line comes into view. From two rows on each view shares a line with the next. No counter leaves its
word. -/
theorem paging_laws (bounded : app.Bounded) :
    ((∀ times, app.historyScroll ≤ (app.paged .down times).historyScroll ∧
        (app.paged .down times).historyScroll ≤ (app.paged .down (times + 1)).historyScroll ∧
        (app.paged .down times).historyScroll ≤ app.maxHistoryScroll) ∧
      (∃ enough, ∀ times ≥ enough,
        (app.paged .down times).historyScroll = app.maxHistoryScroll) ∧
      ∀ line, app.historyScroll ≤ line → line < app.historyLines →
        ∃ times, (app.paged .down times).InView line) ∧
    ((∀ times, (app.paged .up (times + 1)).historyScroll ≤ (app.paged .up times).historyScroll) ∧
      (∃ enough, ∀ times ≥ enough, (app.paged .up times).historyScroll = 0) ∧
      ∀ line, line < app.historyScroll + app.listHeight → line < app.historyLines →
        ∃ times, (app.paged .up times).InView line) ∧
    ∀ direction times,
      let now := app.paged direction times
      let next := app.paged direction (times + 1)
      now.listHeight = app.listHeight ∧ now.historyLines = app.historyLines ∧
        now.maxHistoryScroll = app.maxHistoryScroll ∧
        (2 ≤ app.listHeight → ∃ line, now.InView line ∧ next.InView line ∧
          (0 < app.historyLines → line < app.historyLines)) ∧
        now.historyScroll + now.page ≤ counterLimit ∧
        (next.historyScroll : Int) = now.target direction := by
  refine ⟨⟨?_, ?_, fun line => paged_down_covers bounded⟩, ⟨?_, ?_, ?_⟩, ?_⟩
  · intro times
    rw [paged_down bounded, paged_down bounded, Nat.succ_mul]
    have within := bounded.scroll
    omega
  · exact ⟨_, fun times enough => paged_down_reaches bounded enough⟩
  · intro times
    rw [paged_succ]
    exact Nat.sub_le _ _
  · exact ⟨_, fun times enough => paged_up_reaches enough⟩
  · exact fun line high _ => paged_up_covers bounded high
  · intro direction times now next
    have counts : now.Bounded := bounded.paged direction times
    obtain ⟨height, lines⟩ := paged_counters app direction times
    have step : next = now.scrollHistory direction := paged_succ app direction times
    refine ⟨height, lines, paged_maxHistoryScroll app direction times, ?_,
      counts.scroll_add_page_le, ?_⟩
    · rw [← height, ← lines, step]
      exact counts.view_overlaps direction
    · rw [step]
      exact counts.scrollHistory_target direction

theorem paging_laws_longest :
    let app : App := { listHeight := 2, historyLines := counterLimit,
                       historyScroll := counterLimit - 3 }
    app.Bounded ∧ (app.paged .down 1).historyScroll = counterLimit - 2 ∧
      (∃ enough, ∀ times ≥ enough, (app.paged .down times).historyScroll = counterLimit - 2) ∧
      (∃ times, (app.paged .down times).InView (counterLimit - 1)) ∧
      (∃ enough, ∀ times ≥ enough, (app.paged .up times).historyScroll = 0) ∧
      ∃ times, (app.paged .up times).InView 0 := by
  intro app
  have bounded : app.Bounded := ⟨by decide, by decide, by decide, by decide⟩
  obtain ⟨⟨_, bottom, down⟩, ⟨_, top, up⟩, _⟩ := paging_laws bounded
  exact ⟨bounded, by decide, bottom, down _ (by decide) (by decide), top, up _ (by decide) (by decide)⟩

end Calculator.FullScreen.App
