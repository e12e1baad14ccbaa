import Mathlib.Logic.Function.Basic
import Mathlib.Tactic

/-!
# Snapshots of a revisioned store

A store of keyed rows with a version. Every change takes a new version and stamps the rows it writes with it; a change that
removes rows moves `reset` to its version. `Advance` relates a snapshot of the store to a later one. From it follows what a client
may do with the rows stamped after its version: overwrite its old snapshot with them, as long as nothing was removed
(`Advance.overwrite_changed`).
-/

namespace DeltaSync

/-- The rows of a store at one version; `reset` is the version of the last removal. -/
structure Snapshot (κ ρ : Type) where
  rows : κ → Option ρ
  version : Nat
  reset : Nat

variable {κ ρ : Type} {key : ρ → κ} {rev : ρ → Nat}

/-- Rows stand under their own key and are stamped with a version the store has reached. -/
structure Valid (key : ρ → κ) (rev : ρ → Nat) (a : Snapshot κ ρ) : Prop where
  keyed : ∀ k r, a.rows k = some r → key r = k
  stamped : ∀ k r, a.rows k = some r → rev r ≤ a.version

/-- The second snapshot is one of the same store, taken at the same time or later. -/
structure Advance (rev : ρ → Nat) (a b : Snapshot κ ρ) : Prop where
  version_le : a.version ≤ b.version
  reset_le : a.reset ≤ b.reset
  unchanged : ∀ k r, b.rows k = some r → rev r ≤ a.version → a.rows k = some r
  removed : ∀ k, a.rows k ≠ none → b.rows k = none → a.version < b.reset
  same : a.version = b.version → a.rows = b.rows

theorem Advance.refl (a : Snapshot κ ρ) : Advance rev a a where
  version_le := le_refl _
  reset_le := le_refl _
  unchanged := fun _ _ h _ => h
  removed := fun _ h₁ h₂ => absurd h₂ h₁
  same := fun _ => rfl

theorem Advance.trans {a b c : Snapshot κ ρ} (hab : Advance rev a b) (hbc : Advance rev b c) : Advance rev a c where
  version_le := hab.version_le.trans hbc.version_le
  reset_le := hab.reset_le.trans hbc.reset_le
  unchanged := fun k r h hr => hab.unchanged k r (hbc.unchanged k r h (hr.trans hab.version_le)) hr
  removed := by
    intro k ha hc
    by_cases hb : b.rows k = none
    · exact (hab.removed k ha hb).trans_le hbc.reset_le
    · exact hab.version_le.trans_lt (hbc.removed k hb hc)
  same := by
    intro h
    have h₁ := hab.version_le
    have h₂ := hbc.version_le
    exact (hab.same (by omega)).trans (hbc.same (by omega))

/-- The listed rows are those of the snapshot that are stamped after version `s`. -/
def IsChanged (key : ρ → κ) (rev : ρ → Nat) (b : Snapshot κ ρ) (s : Nat) (rows : List ρ) : Prop :=
  ∀ r, r ∈ rows ↔ b.rows (key r) = some r ∧ s < rev r

/-- Where a key has a row stamped after version `s`, the listed rows hold it; elsewhere the snapshot is as it was at `s`, unless
something was removed. -/
theorem Advance.mem_changed {a b : Snapshot κ ρ} (h : Advance rev a b) (hb : Valid key rev b) (hreset : b.reset ≤ a.version)
    {s : Nat} (hs : s ≤ a.version) {rows : List ρ} (hrows : IsChanged key rev b s rows) (k : κ) :
    k ∉ rows.map key → a.rows k = b.rows k := by
  intro hk
  cases hr : b.rows k with
  | none =>
    by_contra hne
    have := h.removed k hne hr
    omega
  | some r =>
    have hkey := hb.keyed k r hr
    apply h.unchanged k r hr
    by_contra hlt
    apply hk
    rw [← hkey]
    exact List.mem_map_of_mem ((hrows r).2 ⟨by rw [hkey]; exact hr, by omega⟩)

variable [DecidableEq κ]

/-- A map overwritten row by row, each row under its own key. -/
def overwrite (key : ρ → κ) (f : κ → Option ρ) (rows : List ρ) : κ → Option ρ :=
  rows.foldl (fun f r => Function.update f (key r) (some r)) f

/-- Overwriting with rows of another map takes that map's row where a row has the key. -/
theorem overwrite_of_mem {f g : κ → Option ρ} {rows : List ρ} (hg : ∀ r ∈ rows, g (key r) = some r) (k : κ) :
    overwrite key f rows k = if k ∈ rows.map key then g k else f k := by
  induction rows generalizing f with
  | nil => simp [overwrite]
  | cons r rows ih =>
    have hrest : ∀ r' ∈ rows, g (key r') = some r' := fun r' h => hg r' (List.mem_cons_of_mem _ h)
    have hstep : overwrite key f (r :: rows) = overwrite key (Function.update f (key r) (some r)) rows := rfl
    rw [hstep, ih hrest, List.map_cons]
    by_cases hk : k ∈ rows.map key
    · rw [if_pos hk, if_pos (List.mem_cons_of_mem _ hk)]
    · rw [if_neg hk]
      by_cases hkr : k = key r
      · subst hkr
        rw [Function.update_self, if_pos List.mem_cons_self, hg r List.mem_cons_self]
      · rw [Function.update_of_ne hkr, if_neg]
        intro h
        rcases List.mem_cons.1 h with h | h
        · exact hkr h
        · exact hk h

/-- A snapshot overwritten with the rows stamped after it is the later snapshot, when nothing was removed in between. -/
theorem Advance.overwrite_changed {a b : Snapshot κ ρ} (h : Advance rev a b) (hb : Valid key rev b)
    (hreset : b.reset ≤ a.version) {s : Nat} (hs : s ≤ a.version) {rows : List ρ} (hrows : IsChanged key rev b s rows) :
    overwrite key a.rows rows = b.rows := by
  funext k
  rw [overwrite_of_mem (g := b.rows) fun r hr => ((hrows r).1 hr).1]
  split
  · rfl
  · exact h.mem_changed hb hreset hs hrows k ‹_›

end DeltaSync
