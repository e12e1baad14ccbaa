import Mathlib.Data.List.Basic
import Mathlib.Tactic

/-!
# A buffer with one batch out

Items are appended to a buffer. The whole buffer can be taken out as a batch, one at a time, while items go on being appended; the
batch is then either settled or put back in front of the buffer. A counter is taken and put back with it. The module says that no
item is lost, duplicated or moved (`Steps.exact`), and that taking a batch and putting it back is as if nothing had been taken
(`Steps.restored`).
-/

namespace Outbox

/-- The buffer, its counter, and the batch that is out with its count; then what has been done so far: the items appended, the
appends counted, and the batches settled. -/
structure State (α : Type) where
  buffer : List α
  count : Nat
  out : Option (List α × Nat)
  appended : List α
  counted : Nat
  settled : List (List α)

inductive Op
  | skip
  | append
  | take
  | restore
  | settle
  deriving DecidableEq

variable {α : Type}

/-- The items of the batch that is out. -/
def State.outItems (o : State α) : List α :=
  match o.out with
  | none => []
  | some (b, _) => b

inductive Step : Op → State α → State α → Prop
  | skip {o : State α} : Step .skip o o
  | append {o : State α} (d : List α) :
      Step .append o { o with
        buffer := o.buffer ++ d, count := o.count + 1, appended := o.appended ++ d, counted := o.counted + 1 }
  | take {o : State α} (h : o.out = none) : Step .take o { o with buffer := [], count := 0, out := some (o.buffer, o.count) }
  | restore {o : State α} (b : List α) (n : Nat) (h : o.out = some (b, n)) :
      Step .restore o { o with buffer := b ++ o.buffer, count := o.count + n, out := none }
  | settle {o : State α} (b : List α) (n : Nat) (h : o.out = some (b, n)) :
      Step .settle o { o with out := none, settled := o.settled ++ [b] }

/-- Every appended item is in one place, in the order of the appends: the settled batches, the batch out, the buffer. -/
def Exact (o : State α) : Prop := o.appended = o.settled.flatten ++ o.outItems ++ o.buffer

/-- Every step keeps the outbox exact. -/
theorem Step.exact {op : Op} {o o' : State α} (h : Step op o o') (he : Exact o) : Exact o' := by
  unfold Exact State.outItems at *
  cases h with
  | skip => exact he
  | append d => simp only [he, List.append_assoc]
  | take h =>
    rw [h] at he
    simp only [he, List.append_nil]
  | restore b n h =>
    rw [h] at he
    simp only [he, List.append_assoc, List.nil_append]
  | settle b n h =>
    rw [h] at he
    simp only [he, List.flatten_append, List.flatten_cons, List.flatten_nil, List.append_nil]

/-- `o'` comes after the buffer of `o` was taken: while that batch is out, the buffer holds what was appended since. -/
def Since (o o' : State α) : Prop :=
  o'.out = none ∨ (o'.out = some (o.buffer, o.count) ∧
    o'.appended = o.appended ++ o'.buffer ∧ o'.counted = o.counted + o'.count)

/-- Nothing was appended yet since the batch was taken. -/
theorem Step.since_take {o o' : State α} (h : Step .take o o') : Since o o' := by
  cases h with
  | take h => exact Or.inr ⟨rfl, by simp, by simp⟩

/-- The other steps keep what was appended since. -/
theorem Step.since {op : Op} {o o₁ o₂ : State α} (h : Step op o₁ o₂) (hop : op ≠ .take) (hs : Since o o₁) : Since o o₂ := by
  cases h with
  | skip => exact hs
  | append d =>
    rcases hs with hs | ⟨h₁, h₂, h₃⟩
    · exact Or.inl hs
    · exact Or.inr ⟨h₁, by simp [h₂], by simp only [h₃]; omega⟩
  | take h => exact absurd rfl hop
  | restore b n h => exact Or.inl rfl
  | settle b n h => exact Or.inl rfl

/-- A batch put back: the buffer and the counter are those before it was taken, with what was appended in between after them. -/
theorem Step.restored {o o₁ o₂ : State α} (hs : Since o o₁) (h : Step .restore o₁ o₂) :
    ∃ d, o₂.appended = o.appended ++ d ∧ o₂.buffer = o.buffer ++ d ∧ o₂.counted = o.counted + (o₂.count - o.count) ∧
      o.count ≤ o₂.count := by
  cases h with
  | restore b n h =>
    rcases hs with hs | ⟨h₁, h₂, h₃⟩
    · rw [hs] at h
      cases h
    · rw [h] at h₁
      cases h₁
      exact ⟨o₁.buffer, h₂, rfl, by simp only [h₃]; omega, by simp only []; omega⟩

end Outbox
