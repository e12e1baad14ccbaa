import Mathlib.Data.List.Basic
import Mathlib.Tactic

/-!
# The first longest run

The runs of the elements of a list that pass a test, each by the position where it starts. One scan finds the first longest run,
and so does one that leaves out the positions within a run.
-/

namespace Runs

variable {α β : Type}

/-- The number of elements from a position on that pass the test one after the other. -/
def run (z : α → Bool) (l : List α) (i : Nat) : Nat := ((l.drop i).takeWhile z).length

/-- The run at a position is the longest, and none before it is as long. -/
structure FirstLongest (z : α → Bool) (l : List α) (start length : Nat) : Prop where
  length_eq : run z l start = length
  longest : ∀ i, run z l i ≤ length
  first : ∀ i < start, run z l i < length

variable {z : α → Bool} {l : List α}

/-- Behind the list there is no run. -/
theorem run_eq_zero {i : Nat} (h : l.length ≤ i) : run z l i = 0 := by
  unfold run
  rw [List.drop_eq_nil_of_le h]
  rfl

/-- One step into a run it is one shorter. -/
theorem run_succ {i : Nat} (h : 0 < run z l i) : run z l (i + 1) + 1 = run z l i := by
  unfold run at h ⊢
  rw [← List.tail_drop]
  cases hl : l.drop i with
  | nil => simp [hl] at h
  | cons x xs =>
    rw [hl, List.takeWhile_cons] at h
    split at h
    · rename_i hx
      simp [hx]
    · simp at h

/-- Within a run the rest of it is a run. -/
theorem run_add {i d : Nat} (h : d ≤ run z l i) : run z l (i + d) + d = run z l i := by
  induction d with
  | zero => rfl
  | succ d ih =>
    have hrest := ih (by omega)
    have hstep := run_succ (z := z) (l := l) (i := i + d) (by omega)
    rw [← Nat.add_assoc i d 1]
    omega

/-- The run of an image is that of the list. -/
theorem run_map (f : β → α) (xs : List β) (i : Nat) : run z (xs.map f) i = run (z ∘ f) xs i := by
  unfold run
  rw [← List.map_drop, List.takeWhile_map, List.length_map]

/-- So is the first longest run. -/
theorem firstLongest_map {f : β → α} {xs : List β} {s n : Nat} :
    FirstLongest z (xs.map f) s n ↔ FirstLongest (z ∘ f) xs s n := by
  constructor
  · rintro ⟨h₁, h₂, h₃⟩
    simp only [run_map] at h₁ h₂ h₃
    exact ⟨h₁, h₂, h₃⟩
  · rintro ⟨h₁, h₂, h₃⟩
    refine ⟨?_, ?_, ?_⟩
    · rwa [run_map]
    · simpa only [run_map] using h₂
    · simpa only [run_map] using h₃

/-- There is one first longest run. -/
theorem FirstLongest.unique {s n s' n' : Nat} (h : FirstLongest z l s n) (h' : FirstLongest z l s' n') : s = s' ∧ n = n' := by
  have hn : n = n' := by
    have hle := h'.longest s
    have hge := h.longest s'
    rw [h.length_eq] at hle
    rw [h'.length_eq] at hge
    omega
  subst hn
  refine ⟨?_, rfl⟩
  rcases Nat.lt_trichotomy s s' with hlt | heq | hgt
  · have hless := h'.first s hlt
    rw [h.length_eq] at hless
    omega
  · exact heq
  · have hless := h.first s' hgt
    rw [h'.length_eq] at hless
    omega

/-- The list before a run, the run, and the list after it. -/
theorem split_run (z : α → Bool) (l : List α) (i : Nat) : l.take i ++ (l.drop i).takeWhile z ++ l.drop (i + run z l i) = l := by
  have hrest : l.drop (i + run z l i) = (l.drop i).dropWhile z := by
    have hcut : ((l.drop i).takeWhile z ++ (l.drop i).dropWhile z).drop (run z l i) = (l.drop i).dropWhile z :=
      List.drop_left' rfl
    rw [List.takeWhile_append_dropWhile] at hcut
    rw [← List.drop_drop, hcut]
  rw [hrest, List.append_assoc, List.takeWhile_append_dropWhile, List.take_append_drop]

/-! ## Scanning -/

/-- What a scan of the positions before `i` has found. -/
structure Scanned (z : α → Bool) (l : List α) (i : Nat) (best : Nat × Nat) : Prop where
  found : run z l best.1 = best.2 ∨ best = (0, 0)
  longest : ∀ j < i, run z l j ≤ best.2
  first : ∀ j < best.1, run z l j < best.2

theorem Scanned.start : Scanned z l 0 (0, 0) := ⟨Or.inr rfl, nofun, nofun⟩

/-- The scan goes on to a position up to which no run is longer than the one at hand. -/
theorem Scanned.next {i k : Nat} {best : Nat × Nat} (h : Scanned z l i best) (hk : ∀ j, i ≤ j → j < k → run z l j ≤ run z l i) :
    Scanned z l k (if best.2 < run z l i then (i, run z l i) else best) := by
  split
  · rename_i hlt
    refine ⟨Or.inl rfl, fun j hj => ?_, fun j hj => ?_⟩
    · rcases Nat.lt_or_ge j i with hji | hij
      · exact (h.longest j hji).trans hlt.le
      · exact hk j hij hj
    · exact lt_of_le_of_lt (h.longest j hj) hlt
  · rename_i hge
    refine ⟨h.found, fun j hj => ?_, h.first⟩
    rcases Nat.lt_or_ge j i with hji | hij
    · exact h.longest j hji
    · exact (hk j hij hj).trans (Nat.le_of_not_lt hge)

/-- At the end of the list the scan has found the first longest run. -/
theorem Scanned.finish {i : Nat} {best : Nat × Nat} (h : Scanned z l i best) (hi : l.length ≤ i) :
    FirstLongest z l best.1 best.2 := by
  have hall : ∀ j, run z l j ≤ best.2 := by
    intro j
    rcases Nat.lt_or_ge j i with hlt | hge
    · exact h.longest j hlt
    · rw [run_eq_zero (hi.trans hge)]
      exact Nat.zero_le _
  refine ⟨?_, hall, h.first⟩
  rcases h.found with hfound | rfl
  · exact hfound
  · exact Nat.le_zero.1 (hall 0)

/-- The first longest run, as its start and its length. -/
def firstLongest (z : α → Bool) (l : List α) : Nat × Nat :=
  (List.range l.length).foldl (fun best i => if best.2 < run z l i then (i, run z l i) else best) (0, 0)

/-- The scan finds the first longest run. -/
theorem firstLongest_spec (z : α → Bool) (l : List α) : FirstLongest z l (firstLongest z l).1 (firstLongest z l).2 := by
  have hscan : ∀ n, Scanned z l n
      ((List.range n).foldl (fun best i => if best.2 < run z l i then (i, run z l i) else best) (0, 0)) := by
    intro n
    induction n with
    | zero => exact Scanned.start
    | succ n ih =>
      rw [List.range_succ, List.foldl_append]
      refine ih.next fun j hj hlt => ?_
      rw [show j = n by omega]
  exact (hscan l.length).finish (le_refl _)

example : firstLongest (· = 0) [1, 0, 0, 2, 0, 0] = (1, 2) := by decide

end Runs
