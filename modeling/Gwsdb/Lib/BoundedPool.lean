import Mathlib.Data.List.Perm.Basic
import Mathlib.Tactic

/-!
# A bounded pool of jobs

Jobs wait in a queue and are started in order while fewer than `cap` are active. A pool is fair when its counter is the number of
running jobs, it runs as many as it may, and the jobs given to it are, in order, those started and those in the queue, the started
ones being those that have ended and those that run. Giving a job and ending one keep a pool fair.
-/

namespace BoundedPool

variable {α : Type}

/-- Jobs are started while fewer than `cap` are active: the counter, those started, and those left. -/
def pump (cap : Nat) : Nat → List α → Nat × List α × List α
  | active, [] => (active, [], [])
  | active, x :: queue =>
    if active < cap then
      let (now, started, rest) := pump cap (active + 1) queue
      (now, x :: started, rest)
    else (active, [], x :: queue)

/-- The counter of active jobs, the queue, and the jobs that run. -/
structure Pool (α : Type) where
  active : Nat
  queue : List α
  running : List α

/-- The pool without jobs. -/
def Pool.empty : Pool α := ⟨0, [], []⟩

/-- Jobs are started from the queue. -/
def Pool.pump (cap : Nat) (p : Pool α) : Pool α :=
  let (active, started, rest) := BoundedPool.pump cap p.active p.queue
  ⟨active, rest, p.running ++ started⟩

/-- A job is given to the pool. -/
def Pool.submit (cap : Nat) (p : Pool α) (x : α) : Pool α := { p with queue := p.queue ++ [x] }.pump cap

/-- A running job has ended. -/
def Pool.finish (cap : Nat) (p : Pool α) (k : Nat) : Pool α :=
  { p with active := p.active - 1, running := p.running.eraseIdx k }.pump cap

/-- The pool runs as many of the jobs given as it may, in order, and has lost none. -/
structure Fair (cap : Nat) (given ended : List α) (p : Pool α) : Prop where
  counted : p.active = p.running.length
  bounded : p.active ≤ cap
  busy : p.queue = [] ∨ p.active = cap
  order : ∃ started, given = started ++ p.queue ∧ started.Perm (ended ++ p.running)

/-- Starting jobs splits the queue, counts what it starts, and goes on until nothing is left or nothing more may run. -/
theorem pump_spec (cap active : Nat) (queue : List α) (h : active ≤ cap) :
    (pump cap active queue).2.1 ++ (pump cap active queue).2.2 = queue ∧
      (pump cap active queue).1 = active + (pump cap active queue).2.1.length ∧ (pump cap active queue).1 ≤ cap ∧
      ((pump cap active queue).2.2 = [] ∨ (pump cap active queue).1 = cap) := by
  induction queue generalizing active with
  | nil => exact ⟨rfl, rfl, h, Or.inl rfl⟩
  | cons x queue ih =>
    rw [pump]
    split
    · rename_i hlt
      obtain ⟨hsplit, hcount, hle, hbusy⟩ := ih (active + 1) hlt
      refine ⟨congrArg (x :: ·) hsplit, ?_, hle, hbusy⟩
      show (pump cap (active + 1) queue).1 = active + ((pump cap (active + 1) queue).2.1.length + 1)
      omega
    · exact ⟨rfl, rfl, h, Or.inr (by omega)⟩

theorem fair_empty (cap : Nat) : Fair cap [] [] (Pool.empty : Pool α) :=
    ⟨rfl, Nat.zero_le cap, Or.inl rfl, [], rfl, List.Perm.nil⟩

/-- A pool that counts and has lost no job is fair once it has started what it may. -/
theorem fair_pump {cap : Nat} {given ended : List α} {p : Pool α} (hcount : p.active = p.running.length) (hle : p.active ≤ cap)
    (horder : ∃ started, given = started ++ p.queue ∧ started.Perm (ended ++ p.running)) : Fair cap given ended (p.pump cap) := by
  obtain ⟨hsplit, hnow, hbounded, hbusy⟩ := pump_spec cap p.active p.queue hle
  obtain ⟨started, hgiven, hperm⟩ := horder
  refine ⟨?_, hbounded, hbusy, started ++ (BoundedPool.pump cap p.active p.queue).2.1, ?_, ?_⟩
  · show (BoundedPool.pump cap p.active p.queue).1 = (p.running ++ (BoundedPool.pump cap p.active p.queue).2.1).length
    rw [hnow, hcount, List.length_append]
  · show given = started ++ (BoundedPool.pump cap p.active p.queue).2.1 ++ (BoundedPool.pump cap p.active p.queue).2.2
    rw [List.append_assoc, hsplit, hgiven]
  · show (started ++ _).Perm (ended ++ (p.running ++ _))
    rw [← List.append_assoc]
    exact hperm.append_right _

/-- A job given goes to the end of the queue. -/
theorem Fair.submit {cap : Nat} {given ended : List α} {p : Pool α} (h : Fair cap given ended p) (x : α) :
    Fair cap (given ++ [x]) ended (p.submit cap x) := by
  obtain ⟨started, hgiven, hperm⟩ := h.order
  refine fair_pump h.counted h.bounded ⟨started, ?_, hperm⟩
  rw [hgiven, List.append_assoc]

/-- A job that ends makes room for the first ones of the queue. -/
theorem Fair.finish {cap : Nat} {given ended : List α} {p : Pool α} (h : Fair cap given ended p) {k : Nat} {x : α}
    (hk : p.running[k]? = some x) : Fair cap given (ended ++ [x]) (p.finish cap k) := by
  obtain ⟨hlt, hx⟩ := List.getElem?_eq_some_iff.1 hk
  obtain ⟨started, hgiven, hperm⟩ := h.order
  refine fair_pump ?_ ((Nat.sub_le _ _).trans h.bounded) ⟨started, hgiven, ?_⟩
  · show p.active - 1 = (p.running.eraseIdx k).length
    rw [List.length_eraseIdx_of_lt hlt, h.counted]
  · have hout : (x :: p.running.eraseIdx k).Perm p.running := hx ▸ List.getElem_cons_eraseIdx_perm hlt
    rw [List.append_assoc]
    exact hperm.trans (hout.symm.append_left ended)

end BoundedPool
