import Mathlib.Tactic

/-!
# Loops, round by round

A loop is what one round of it does: it goes on from another state, or it ends with a result. A loop whose rounds all make a
measure of its state smaller ends, and its result is that of every function which the rounds leave alone.
-/

namespace Rounds

variable {σ ρ : Type}

/-- The loop after `n` rounds: the state it goes on from, or its result. -/
def after (round : σ → σ ⊕ ρ) : Nat → σ → σ ⊕ ρ
  | 0, s => .inl s
  | n + 1, s => Sum.elim (after round n) .inr (round s)

variable {round : σ → σ ⊕ ρ}

/-- A loop that makes a measure smaller in each round ends, with the result of any function that one round does not change. -/
theorem after_eq_of_measure (μ : σ → Nat) (hμ : ∀ s s', round s = .inl s' → μ s' < μ s) {f : σ → ρ}
    (hf : ∀ s, f s = Sum.elim f id (round s)) {n : Nat} {s : σ} (h : μ s < n) : after round n s = .inr (f s) := by
  induction n generalizing s with
  | zero => omega
  | succ n ih =>
    rw [after, hf s]
    cases hround : round s with
    | inl s' =>
      have hless := hμ s s' hround
      exact ih (by omega)
    | inr r => rfl

/-- What each round keeps, every state that the loop goes on from has. -/
theorem invariant {I : σ → Prop} (hI : ∀ s s', round s = .inl s' → I s → I s') {n : Nat} {s s' : σ}
    (h : after round n s = .inl s') (hs : I s) : I s' := by
  induction n generalizing s with
  | zero =>
    cases h
    exact hs
  | succ n ih =>
    rw [after] at h
    cases hround : round s with
    | inl t =>
      rw [hround] at h
      exact ih h (hI s t hround hs)
    | inr r =>
      rw [hround] at h
      cases h

end Rounds
