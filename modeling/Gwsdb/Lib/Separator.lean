import Mathlib.Data.List.Infix
import Mathlib.Tactic

/-!
# Lists joined with a separator

A separator none of whose proper ends is a start of it can be found again: lists that do not contain it are read back from the
list they are joined to. No other lists are, since what is read back does not contain the separator.
-/

namespace Separator

variable {α : Type} {sep : List α}

/-- No proper end of the separator is a start of it. -/
def Borderless (sep : List α) : Prop := ∀ u v w, sep = u ++ v → sep = v ++ w → u = [] ∨ v = []

theorem borderless_pair {a b : α} (h : a ≠ b) : Borderless [a, b] := by
  intro u v w hstart hend
  rcases u with _ | ⟨a', u⟩
  · exact Or.inl rfl
  rcases v with _ | ⟨b', v⟩
  · exact Or.inr rfl
  rw [List.cons_append, List.cons.injEq] at hstart hend
  have hb : b' ∈ [b] := by rw [hstart.2]; simp
  rw [List.mem_singleton.1 hb] at hend
  exact absurd hend.1 h

/-- Before the first separator the same list stands. -/
theorem eq_of_append_eq (hsep : Borderless sep) {x y r r' : List α} (hy : ¬sep <:+: y) {u : List α} (hu : y = x ++ u)
    (h : sep ++ r = u ++ (sep ++ r')) : x = y ∧ r = r' := by
  rcases List.append_eq_append_iff.1 h with ⟨v, hsplit, -⟩ | ⟨v, hsplit, hrest⟩
  · exact absurd ⟨x, v, by rw [hu, hsplit, List.append_assoc]⟩ hy
  · -- the separator starts within its other occurrence
    have hstart : v <+: sep := List.prefix_of_prefix_length_le ⟨r, hrest.symm⟩ (List.prefix_append sep r') (by simp [hsplit])
    obtain ⟨w, hw⟩ := hstart
    rcases hsep u v w hsplit hw.symm with rfl | rfl
    · rw [List.nil_append] at hsplit
      rw [← hsplit] at hrest
      exact ⟨by rw [hu, List.append_nil], (List.append_cancel_left hrest).symm⟩
    · rw [List.append_nil] at hsplit
      exact absurd ⟨x, [], by rw [hu, hsplit, List.append_nil]⟩ hy

theorem cut_unique (hsep : Borderless sep) {x y r r' : List α} (hx : ¬sep <:+: x) (hy : ¬sep <:+: y)
    (h : x ++ (sep ++ r) = y ++ (sep ++ r')) : x = y ∧ r = r' := by
  rcases List.append_eq_append_iff.1 h with ⟨u, hu, hrest⟩ | ⟨u, hu, hrest⟩
  · exact eq_of_append_eq hsep hy hu hrest
  · obtain ⟨hxy, hr⟩ := eq_of_append_eq hsep hx hu hrest
    exact ⟨hxy.symm, hr.symm⟩

/-- Lists without the separator are determined by what they are joined to. -/
theorem intercalate_injective (hsep : Borderless sep) {xs ys : List (List α)} (hxs : xs ≠ []) (hys : ys ≠ [])
    (hx : ∀ x ∈ xs, ¬sep <:+: x) (hy : ∀ y ∈ ys, ¬sep <:+: y) (h : sep.intercalate xs = sep.intercalate ys) : xs = ys := by
  induction xs generalizing ys with
  | nil => exact absurd rfl hxs
  | cons x xs ih =>
    obtain ⟨y, ys, rfl⟩ := List.exists_cons_of_ne_nil hys
    obtain ⟨hfirst, hrest⟩ := List.forall_mem_cons.1 hx
    obtain ⟨hfirst', hrest'⟩ := List.forall_mem_cons.1 hy
    cases xs with
    | nil =>
      cases ys with
      | nil => simpa using h
      | cons y' ys =>
        rw [List.intercalate_singleton, List.intercalate_cons_cons] at h
        exact absurd ⟨y, sep.intercalate (y' :: ys), h.symm⟩ hfirst
    | cons x' xs =>
      cases ys with
      | nil =>
        rw [List.intercalate_singleton, List.intercalate_cons_cons] at h
        exact absurd ⟨x, sep.intercalate (x' :: xs), h⟩ hfirst'
      | cons y' ys =>
        rw [List.intercalate_cons_cons, List.intercalate_cons_cons, List.append_assoc, List.append_assoc] at h
        obtain ⟨rfl, htail⟩ := cut_unique hsep hfirst hfirst' h
        rw [ih (List.cons_ne_nil _ _) (List.cons_ne_nil _ _) hrest hrest' htail]

/-- A function splits at every separator. -/
structure Splits (sep : List α) (split : List α → List (List α)) : Prop where
  ne_nil : ∀ s, split s ≠ []
  join : ∀ s, sep.intercalate (split s) = s
  free : ∀ s, ∀ x ∈ split s, ¬sep <:+: x

/-- What is joined is split again exactly when no part contains the separator. -/
theorem Splits.split_join_iff {split : List α → List (List α)} (h : Splits sep split) (hsep : Borderless sep) {xs : List (List α)}
    (hxs : xs ≠ []) : split (sep.intercalate xs) = xs ↔ ∀ x ∈ xs, ¬sep <:+: x := by
  constructor
  · intro heq
    rw [← heq]
    exact h.free (sep.intercalate xs)
  · intro hx
    exact intercalate_injective hsep (h.ne_nil _) hxs (h.free _) hx (h.join _)

end Separator
