import Mathlib.Data.Set.Basic
import Mathlib.Tactic

/-!
# Bringing a set to another one by single changes

What is missing is added first, then what is too much is removed. After any number of these changes the wanted elements that
were there are there still, nothing else came in, and nothing was removed before all wanted elements were there; after all of
them the set is the wanted one.
-/

namespace Reconcile

variable {κ : Type}

/-- One change of a set. -/
inductive Change (κ : Type) where
  | add (k : κ)
  | remove (k : κ)

/-- A set after a change. -/
def Change.apply (S : Set κ) : Change κ → Set κ
  | .add k => insert k S
  | .remove k => S \ {k}

/-- A set after changes. -/
def applied (S : Set κ) (changes : List (Change κ)) : Set κ := changes.foldl Change.apply S

/-- The changes: all that is missing, then all that is too much. -/
def plan (missing extra : List κ) : List (Change κ) := missing.map .add ++ extra.map .remove

theorem applied_append (S : Set κ) (as bs : List (Change κ)) :
    applied S (as ++ bs) = applied (applied S as) bs := List.foldl_append

theorem applied_add (S : Set κ) (ks : List κ) : applied S (ks.map .add) = S ∪ {k | k ∈ ks} := by
  induction ks generalizing S with
  | nil => simp [applied]
  | cons k ks ih =>
    have hrest := ih (insert k S)
    rw [List.map_cons, applied, List.foldl_cons, ← applied, Change.apply, hrest]
    ext x
    simp only [Set.mem_union, Set.mem_insert_iff, Set.mem_ofPred_eq, List.mem_cons]
    tauto

theorem applied_remove (S : Set κ) (ks : List κ) : applied S (ks.map .remove) = S \ {k | k ∈ ks} := by
  induction ks generalizing S with
  | nil => simp [applied]
  | cons k ks ih =>
    have hrest := ih (S \ {k})
    rw [List.map_cons, applied, List.foldl_cons, ← applied, Change.apply, hrest]
    ext x
    simp only [Set.mem_sdiff, Set.mem_singleton_iff, Set.mem_ofPred_eq, List.mem_cons]
    tauto

/-- The set after the first changes. -/
theorem applied_take (S : Set κ) (missing extra : List κ) (n : Nat) :
    applied S ((plan missing extra).take n) = (S ∪ {k | k ∈ missing.take n}) \ {k | k ∈ extra.take (n - missing.length)} := by
  rw [plan, List.take_append, List.length_map, ← List.map_take, ← List.map_take, applied_append, applied_add, applied_remove]

/-- The lists hold what is wanted and not there, and what is there and not wanted. -/
structure Differ (present want : Set κ) (missing extra : List κ) : Prop where
  missing : ∀ k, k ∈ missing ↔ k ∈ want ∧ k ∉ present
  extra : ∀ k, k ∈ extra ↔ k ∈ present ∧ k ∉ want

variable {present want : Set κ} {missing extra : List κ}

/-- What was there and is wanted stays. -/
theorem Differ.kept (d : Differ present want missing extra) (n : Nat) {k : κ} (hk : k ∈ present) (hw : k ∈ want) :
    k ∈ applied present ((plan missing extra).take n) := by
  rw [applied_take]
  exact ⟨Or.inl hk, fun hextra => ((d.extra k).1 (List.mem_of_mem_take hextra)).2 hw⟩

/-- Nothing comes in that is not wanted. -/
theorem Differ.within (d : Differ present want missing extra) (n : Nat) {k : κ}
    (hk : k ∈ applied present ((plan missing extra).take n)) : k ∈ present ∨ k ∈ want := by
  rw [applied_take] at hk
  exact hk.1.imp_right fun hmissing => ((d.missing k).1 (List.mem_of_mem_take hmissing)).1

/-- What was there stays until all that is wanted is there. Where something was removed, all was added before. -/
theorem Differ.complete (d : Differ present want missing extra) (n : Nat) {k : κ} (hk : k ∈ present)
    (hgone : k ∉ applied present ((plan missing extra).take n)) {w : κ} (hw : w ∈ want) :
    w ∈ applied present ((plan missing extra).take n) := by
  rw [applied_take] at hgone ⊢
  have hextra : k ∈ extra.take (n - missing.length) := by
    by_contra hnot
    exact hgone ⟨Or.inl hk, hnot⟩
  have hlength : missing.length ≤ n := by
    by_contra hlt
    rw [Nat.sub_eq_zero_of_le (by omega), List.take_zero] at hextra
    cases hextra
  refine ⟨?_, fun hin => ((d.extra w).1 (List.mem_of_mem_take hin)).2 hw⟩
  by_cases hpresent : w ∈ present
  · exact Or.inl hpresent
  · refine Or.inr ?_
    rw [Set.mem_ofPred_eq, List.take_of_length_le hlength]
    exact (d.missing w).2 ⟨hw, hpresent⟩

/-- A set that had elements has some at any time, when some are wanted. -/
theorem Differ.nonempty (d : Differ present want missing extra) (n : Nat) (hpresent : present.Nonempty) (hwant : want.Nonempty) :
    (applied present ((plan missing extra).take n)).Nonempty := by
  obtain ⟨k, hk⟩ := hpresent
  obtain ⟨w, hw⟩ := hwant
  by_cases hin : k ∈ applied present ((plan missing extra).take n)
  · exact ⟨k, hin⟩
  · exact ⟨w, d.complete n hk hin hw⟩

/-- After all changes the set is the wanted one. -/
theorem Differ.reached (d : Differ present want missing extra) : applied present (plan missing extra) = want := by
  rw [plan, applied_append, applied_add, applied_remove]
  ext k
  simp only [Set.mem_sdiff, Set.mem_union, Set.mem_ofPred_eq, d.missing, d.extra]
  tauto

end Reconcile
