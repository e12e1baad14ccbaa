import Gwsdb.Web.HistoryPager

/-!
# The history is shown in full

Whatever snapshots come and whatever buttons are clicked, in any order: the section holds the checks of the last snapshot; its
table is visible exactly when there are any; and then it shows a page that there is, the pages together being the checks, each
once (`history_shown_in_pages`).
-/

namespace Gwsdb.HistoryPager

open Gwsdb.Web (HistoryCheck)

/-- What holds of a section after `checks` were given. -/
structure Section.Holds (t : Section) (checks : List HistoryCheck) : Prop where
  checks_eq : t.checks = checks
  visible_iff : t.visible = true ↔ checks ≠ []
  page : t.visible = true → Paging.OnPage PAGE_SIZE t.checks t.page t.shown

/-- `render` establishes it, whatever the page and the table were before. -/
theorem holds_render (t : Section) : t.render.Holds t.checks := by
  unfold Section.render
  by_cases hempty : t.checks = []
  · rw [if_pos hempty]
    exact ⟨rfl, iff_of_false Bool.false_ne_true fun hne => hne hempty, nofun⟩
  · rw [if_neg hempty]
    exact ⟨rfl, iff_of_true rfl hempty, fun _ => Paging.onPage_turnTo PAGE_SIZE t.checks t.page⟩

/-- A button turns to another page of the same checks, if it is there. -/
theorem Section.Holds.turn {t : Section} {checks : List HistoryCheck} (h : t.Holds checks) (page : Nat) :
    (if t.visible then { t with page := page }.render else t).Holds checks := by
  split
  · have hrender := holds_render { t with page := page }
    rw [← h.checks_eq]
    exact hrender
  · exact h

/-- Every event keeps it. -/
theorem Section.Holds.step {t : Section} {checks : List HistoryCheck} (h : t.Holds checks) (e : Event) :
    (t.step e).Holds (given checks e) := by
  cases e with
  | cached checks => exact holds_render { t with checks := checks }
  | fresh checks => exact holds_render { t with checks := checks, page := 1 }
  | previous => exact h.turn _
  | next => exact h.turn _

theorem holds_foldl {t : Section} {checks : List HistoryCheck} (h : t.Holds checks) (events : List Event) :
    (events.foldl Section.step t).Holds (events.foldl given checks) := by
  induction events generalizing t checks with
  | nil => exact h
  | cons e events ih => exact ih (h.step e)

theorem holds_empty : Section.empty.Holds [] := ⟨rfl, iff_of_false Bool.false_ne_true fun hne => hne rfl, nofun⟩

/-- The section holds the checks of the last snapshot; its table is visible exactly when there are any, and then shows a page that
there is; and the pages together are the checks. -/
theorem history_shown_in_pages (events : List Event) :
    let t := run events
    t.checks = events.foldl given [] ∧ (t.visible = true ↔ t.checks ≠ []) ∧
    (t.visible = true → 1 ≤ t.page ∧ t.page ≤ t.totalPages ∧ t.shown = t.slice t.page) ∧
    (List.range t.totalPages).flatMap (fun i => t.slice (i + 1)) = t.checks := by
  intro t
  have hholds : t.Holds (events.foldl given []) := holds_foldl holds_empty events
  refine ⟨hholds.checks_eq, ?_, fun hvisible => ?_, Paging.slices_eq (by decide) t.checks⟩
  · rw [hholds.checks_eq]
    exact hholds.visible_iff
  · obtain ⟨hpos, hle, hshown⟩ := hholds.page hvisible
    exact ⟨hpos, hle, hshown⟩

end Gwsdb.HistoryPager
