import Mathlib.Data.List.Basic
import Mathlib.Tactic

/-!
# Paging

A list shown in pages of a fixed size, numbered from one. There is always a first page; a number is turned into that of a page
that there is (`turnTo_spec`); and the pages together are the list (`slices_eq`).
-/

namespace Paging

variable {α : Type}

/-- The number of pages for so many elements. -/
def totalPages (size n : Nat) : Nat := max 1 ((n + size - 1) / size)

/-- The page to turn to. -/
def turnTo (total page : Nat) : Nat :=
  let page := if total < page then total else page
  if page < 1 then 1 else page

/-- The elements of a page. -/
def slice (size : Nat) (l : List α) (page : Nat) : List α :=
  let start := (page - 1) * size
  let stop := min (start + size) l.length
  (l.drop start).take (stop - start)

theorem totalPages_pos (size n : Nat) : 1 ≤ totalPages size n := Nat.le_max_left _ _

/-- The pages have room for all. -/
theorem le_totalPages {size : Nat} (h : 0 < size) (n : Nat) : n ≤ totalPages size n * size := by
  have hdiv : n ≤ (n + size - 1) / size * size := by
    have hmod := Nat.mod_lt (n + size - 1) h
    have hsplit := Nat.div_add_mod' (n + size - 1) size
    omega
  exact hdiv.trans (Nat.mul_le_mul_right size (Nat.le_max_right _ _))

theorem turnTo_spec {total : Nat} (h : 1 ≤ total) (page : Nat) : 1 ≤ turnTo total page ∧ turnTo total page ≤ total := by
  unfold turnTo
  by_cases hlt : total < page
  · rw [if_pos hlt, if_neg (by omega)]
    exact ⟨h, le_refl total⟩
  by_cases hpos : page < 1
  · rw [if_neg hlt, if_pos hpos]
    exact ⟨le_refl 1, h⟩
  · rw [if_neg hlt, if_neg hpos]
    omega

/-- A page that there is, and its elements. -/
structure OnPage (size : Nat) (l : List α) (page : Nat) (shown : List α) : Prop where
  pos : 1 ≤ page
  le : page ≤ totalPages size l.length
  shown_eq : shown = slice size l page

/-- Whatever page was asked for, one that there is is turned to. -/
theorem onPage_turnTo (size : Nat) (l : List α) (page : Nat) :
    OnPage size l (turnTo (totalPages size l.length) page) (slice size l (turnTo (totalPages size l.length) page)) := by
  obtain ⟨hpos, hle⟩ := turnTo_spec (totalPages_pos size l.length) page
  exact ⟨hpos, hle, rfl⟩

/-- The first pages together. -/
theorem slices_eq_take (size : Nat) (l : List α) (k : Nat) :
    (List.range k).flatMap (fun i => slice size l (i + 1)) = l.take (k * size) := by
  induction k with
  | zero => rw [Nat.zero_mul]; rfl
  | succ k ih =>
    rw [List.range_succ, List.flatMap_append, ih, List.flatMap_singleton, slice, Nat.add_sub_cancel,
      ← List.take_add, Nat.succ_mul]
    by_cases h : k * size + size ≤ l.length
    · rw [min_eq_left h, Nat.add_sub_cancel_left]
    · rw [min_eq_right (by omega), List.take_of_length_le (by omega), List.take_of_length_le (by omega)]

/-- The pages together are the list. -/
theorem slices_eq {size : Nat} (h : 0 < size) (l : List α) :
    (List.range (totalPages size l.length)).flatMap (fun i => slice size l (i + 1)) = l := by
  rw [slices_eq_take, List.take_of_length_le (le_totalPages h _)]

end Paging
