import Mathlib.Order.Monotone.Defs
import Mathlib.Tactic

/-!
# Versions that signal changes

A value that changes in time, and a number read beside it. The number is a sound signal when the value cannot change and change
back while the number reads the same at both ends. Then a reader that finds the number unchanged after reading the value has the
value of the moment it read the number first, and a copy kept under its number stays good for as long as the number comes up.
-/

namespace Signal

variable {α : Type}

/-- Between two moments at which the number is the same, the value is the same. -/
def Sound (version : Nat → Nat) (value : Nat → α) : Prop :=
  ∀ m k n, m ≤ k → k ≤ n → version m = version n → value k = value m

/-- The value of some moment in a range at which the number was `v`. -/
def SeenIn (version : Nat → Nat) (value : Nat → α) (m n v : Nat) (a : α) : Prop :=
  ∃ k, m ≤ k ∧ k ≤ n ∧ version k = v ∧ value k = a

variable {version : Nat → Nat} {value : Nat → α}

/-- Two moments with one number have one value. -/
theorem Sound.eq (h : Sound version value) {m n : Nat} (hv : version m = version n) : value m = value n := by
  rcases Nat.le_total m n with hmn | hnm
  · exact (h m n n hmn (le_refl n) hv).symm
  · exact h n m m hnm (le_refl m) hv.symm

/-- A sound signal of a value is one of what is known from the value. -/
theorem Sound.of_eq {β : Type} {value' : Nat → β} (h : Sound version value)
    (hvalue : ∀ m n, value m = value n → value' m = value' n) :
    Sound version value' := fun m k n hmk hkn hv => hvalue k m (h m k n hmk hkn hv)

/-- A number that never goes down is a sound signal where no step that keeps it changes the value. -/
theorem Sound.of_step (hmono : Monotone version) (hstep : ∀ n, version (n + 1) = version n → value (n + 1) = value n) :
    Sound version value := by
  intro m k n hmk hkn hv
  induction k, hmk using Nat.le_induction with
  | base => rfl
  | succ k hmk ih =>
    have hlow : version m ≤ version k := hmono hmk
    have hhigh : version (k + 1) ≤ version n := hmono hkn
    have hsucc : version k ≤ version (k + 1) := hmono (Nat.le_succ k)
    exact (hstep k (by omega)).trans (ih ((Nat.le_succ k).trans hkn))

theorem SeenIn.mono {m m' n n' v : Nat} {a : α} (hm : m' ≤ m) (hn : n ≤ n') (h : SeenIn version value m n v a) :
    SeenIn version value m' n' v a := by
  obtain ⟨k, hmk, hkn, hv, ha⟩ := h
  exact ⟨k, hm.trans hmk, hkn.trans hn, hv, ha⟩

/-- A value read between two readings of one number is the value of the first. -/
theorem Sound.seen_of_reread (h : Sound version value) {m k n : Nat} (hmk : m ≤ k) (hkn : k ≤ n) (hv : version n = version m) :
    SeenIn version value m n (version m) (value k) :=
  ⟨m, le_refl m, hmk.trans hkn, rfl, (h m k n hmk hkn hv.symm).symm⟩

/-- A copy kept under its number is the value of any moment that has the number. -/
theorem Sound.seen_again (h : Sound version value) {m n k v : Nat} {a : α} (hseen : SeenIn version value m n v a)
    (hk : version k = v) : value k = a := by
  obtain ⟨i, -, -, hv, ha⟩ := hseen
  rw [← ha]
  exact h.eq (hk.trans hv.symm)

/-- Where the number never goes down, a copy under a number at least the one of moment `m` is the
value of a moment from `m` on. -/
theorem Sound.seen_since (h : Sound version value) (hmono : Monotone version) {i m n v : Nat} {a : α}
    (hseen : SeenIn version value i n v a) (hmn : m ≤ n) (hv : version m ≤ v) : SeenIn version value m n v a := by
  obtain ⟨k, -, hkn, hk, ha⟩ := hseen
  rcases Nat.le_total m k with hmk | hkm
  · exact ⟨k, hmk, hkn, hk, ha⟩
  · have hsame : version m = v := le_antisymm hv (by rw [← hk]; exact hmono hkm)
    exact ⟨m, le_refl m, hmn, hsame, (h.eq (hsame.trans hk.symm)).trans ha⟩

end Signal
