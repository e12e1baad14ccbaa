import Mathlib.Data.List.Basic
import Mathlib.Tactic

/-!
# Cutting a list into chunks

Consecutive chunks of a list, each of a fixed size but the last. They are not empty, and together they are the list.
-/

namespace Chunks

variable {α : Type}

/-- The chunks cut off one after the other, `fuel` of them at most. -/
def cut (n : Nat) : Nat → List α → List (List α)
  | 0, _ => []
  | fuel + 1, l => if l.isEmpty then [] else l.take n :: cut n fuel (l.drop n)

/-- The chunks of `n` elements of a list. -/
def chunks (n : Nat) (l : List α) : List (List α) := cut n l.length l

theorem cut_flatten {n : Nat} (hn : 0 < n) {fuel : Nat} {l : List α} (h : l.length ≤ fuel) : (cut n fuel l).flatten = l := by
  induction fuel generalizing l with
  | zero =>
    have hl : l = [] := List.eq_nil_of_length_eq_zero (by omega)
    rw [hl]
    rfl
  | succ fuel ih =>
    cases l with
    | nil => rfl
    | cons x l =>
      have hd : ((x :: l).drop n).length ≤ fuel := by
        simp only [List.length_drop, List.length_cons] at h ⊢
        omega
      simp only [cut, List.isEmpty_cons, Bool.false_eq_true, if_false, List.flatten_cons]
      rw [ih hd, List.take_append_drop]

/-- The chunks of a list put together are the list. -/
theorem chunks_flatten {n : Nat} (hn : 0 < n) (l : List α) : (chunks n l).flatten = l := cut_flatten hn (le_refl _)

/-- The elements of the chunks are those of the list. -/
theorem mem_of_mem_chunks {n : Nat} (hn : 0 < n) {l c : List α} {x : α} (hc : c ∈ chunks n l) (hx : x ∈ c) : x ∈ l := by
  rw [← chunks_flatten hn l]
  exact List.mem_flatten.2 ⟨c, hc, hx⟩

/-- An element of the list is in one of the chunks. -/
theorem exists_mem_chunks {n : Nat} (hn : 0 < n) {l : List α} {x : α} (hx : x ∈ l) : ∃ c ∈ chunks n l, x ∈ c := by
  rw [← chunks_flatten hn l] at hx
  exact List.mem_flatten.1 hx

/-- The first chunk, and the chunks of the rest. -/
theorem chunks_eq_take_cons {n : Nat} {l : List α} (hl : l ≠ []) : chunks n l = l.take n :: cut n (l.length - 1) (l.drop n) := by
  cases l with
  | nil => exact absurd rfl hl
  | cons x l => rfl

theorem cut_flatten_of_length {n : Nat} (hn : 0 < n) {cs : List (List α)} (h : ∀ c ∈ cs, c.length = n) {fuel : Nat}
    (hfuel : cs.flatten.length ≤ fuel) : cut n fuel cs.flatten = cs := by
  induction cs generalizing fuel with
  | nil => cases fuel <;> rfl
  | cons c cs ih =>
    have hc := h c List.mem_cons_self
    rw [List.flatten_cons, List.length_append] at hfuel
    cases fuel with
    | zero => omega
    | succ fuel =>
      have hnil : (c ++ cs.flatten).isEmpty = false := by
        rw [List.isEmpty_eq_false_iff, ← List.length_pos_iff, List.length_append]
        omega
      rw [List.flatten_cons, cut, hnil, List.take_left' hc, List.drop_left' hc]
      simp only [Bool.false_eq_true, if_false]
      rw [ih (fun c hc => h c (List.mem_cons_of_mem _ hc)) (by omega)]

/-- Lists of one length put together are cut into those lists. -/
theorem chunks_flatten_of_length {n : Nat} (hn : 0 < n) {cs : List (List α)} (h : ∀ c ∈ cs, c.length = n) :
    chunks n cs.flatten = cs := cut_flatten_of_length hn h (le_refl _)

theorem take_cut_flatten {n fuel : Nat} {l : List α} (h : l.length ≤ fuel) (hn : 0 < n) (k : Nat) :
    ((cut n fuel l).take k).flatten = l.take (n * k) := by
  induction fuel generalizing l k with
  | zero =>
    have hl : l = [] := List.eq_nil_of_length_eq_zero (by omega)
    simp [hl, cut]
  | succ fuel ih =>
    cases l with
    | nil => simp [cut]
    | cons x l =>
      cases k with
      | zero => rfl
      | succ k =>
        have hd : ((x :: l).drop n).length ≤ fuel := by
          simp only [List.length_drop, List.length_cons] at h ⊢
          omega
        simp only [cut, List.isEmpty_cons, Bool.false_eq_true, if_false, List.take_succ_cons, List.flatten_cons]
        rw [ih hd k, Nat.mul_succ, Nat.add_comm, List.take_add]

/-- The first chunks put together. -/
theorem take_chunks_flatten {n : Nat} (hn : 0 < n) (l : List α) (k : Nat) : ((chunks n l).take k).flatten = l.take (n * k) :=
  take_cut_flatten (le_refl _) hn k

@[simp] theorem chunks_nil (n : Nat) : chunks n ([] : List α) = [] := rfl

example : chunks 2 [1, 2, 3, 4, 5] = [[1, 2], [3, 4], [5]] := by decide

end Chunks
