import Mathlib.Data.List.Basic
import Mathlib.Logic.Function.Basic
import Mathlib.Tactic

/-!
# Counting calls in fixed windows

A key may make a number of calls in each bucket. For each key one count is kept, for the bucket of the last call that
was admitted. While the buckets of the calls of a key do not decrease, the first calls in each bucket are admitted,
up to the limit, and no others.
-/

namespace FixedWindow

variable {κ β : Type} [DecidableEq κ] [DecidableEq β]

/-- For each key a bucket and the count in it. -/
abbrev Counters (κ β : Type) := κ → Option (β × Nat)

/-- The count of a key in a bucket. -/
def count (s : Counters κ β) (k : κ) (b : β) : Nat :=
  match s k with
  | none => 0
  | some (b', n) => if b' = b then n else 0

/-- A call: refused when the count has reached the limit, otherwise admitted and counted. -/
def step (limit : κ → Nat) (s : Counters κ β) (call : κ × β) : Bool × Counters κ β :=
  if limit call.1 ≤ count s call.1 call.2 then (false, s)
  else (true, Function.update s call.1 (some (call.2, count s call.1 call.2 + 1)))

/-- The counters after calls. -/
def after (limit : κ → Nat) (s : Counters κ β) (calls : List (κ × β)) : Counters κ β :=
  calls.foldl (fun s call => (step limit s call).2) s

/-- The answers to calls. -/
def answers (limit : κ → Nat) : Counters κ β → List (κ × β) → List Bool
  | _, [] => []
  | s, call :: calls => (step limit s call).1 :: answers limit (step limit s call).2 calls

/-- No counts. -/
def fresh : Counters κ β := fun _ => none

variable {limit : κ → Nat}

omit [DecidableEq κ] in
/-- The count of a key in a window. -/
theorem count_some {s : Counters κ β} {k : κ} {b' : β} {n : Nat} (h : s k = some (b', n)) (b : β) :
    count s k b = if b' = b then n else 0 := by
  unfold count
  rw [h]

theorem count_update_self (s : Counters κ β) (k : κ) (b' : β) (n : Nat) (b : β) :
    count (Function.update s k (some (b', n))) k b = if b' = b then n else 0 :=
  count_some (Function.update_self k (some (b', n)) s) b

/-- A write of one key leaves the counts of the others. -/
theorem count_update_ne (s : Counters κ β) {k k' : κ} (hk : k' ≠ k) (v : Option (β × Nat)) (b : β) :
    count (Function.update s k v) k' b = count s k' b := by
  unfold count
  rw [Function.update_of_ne hk]

/-- Every call is answered. -/
theorem length_answers (s : Counters κ β) (calls : List (κ × β)) : (answers limit s calls).length = calls.length := by
  induction calls generalizing s with
  | nil => rfl
  | cons call calls ih => rw [answers, List.length_cons, List.length_cons, ih]

/-- Two lists of calls, one after the other. -/
theorem after_append (s : Counters κ β) (as bs : List (κ × β)) : after limit s (as ++ bs) = after limit (after limit s as) bs :=
  List.foldl_append

/-- Their answers are those of the first and then those of the second. -/
theorem answers_append (s : Counters κ β) (as bs : List (κ × β)) :
    answers limit s (as ++ bs) = answers limit s as ++ answers limit (after limit s as) bs := by
  induction as generalizing s with
  | nil => rfl
  | cons call as ih =>
    rw [List.cons_append, answers, answers, ih]
    rfl

/-- A call is refused in a full window and changes nothing. -/
theorem step_refused {s : Counters κ β} {call : κ × β} (h : limit call.1 ≤ count s call.1 call.2) :
    step limit s call = (false, s) := if_pos h

/-- Any other call is admitted and counted. -/
theorem step_admitted {s : Counters κ β} {call : κ × β} (h : ¬limit call.1 ≤ count s call.1 call.2) :
    step limit s call = (true, Function.update s call.1 (some (call.2, count s call.1 call.2 + 1))) := if_neg h

/-- A counter is that of an earlier call, or was there before. -/
theorem step_some {s : Counters κ β} {call : κ × β} {k : κ} {b : β} {n : Nat} (h : (step limit s call).2 k = some (b, n)) :
    s k = some (b, n) ∨ call = (k, b) ∧ 0 < limit k := by
  by_cases hlimit : limit call.1 ≤ count s call.1 call.2
  · rw [step_refused hlimit] at h
    exact Or.inl h
  · rw [step_admitted hlimit] at h
    by_cases hk : k = call.1
    · subst hk
      simp only [Function.update_self, Option.some.injEq, Prod.mk.injEq] at h
      exact Or.inr ⟨Prod.ext rfl h.1, by omega⟩
    · simp only [Function.update_of_ne hk] at h
      exact Or.inl h

/-- So after calls it is that of one of them. -/
theorem mem_of_after {calls : List (κ × β)} {k : κ} {b : β} {n : Nat} (h : after limit fresh calls k = some (b, n)) :
    (k, b) ∈ calls := by
  induction calls using List.reverseRecOn generalizing n with
  | nil => cases h
  | append_singleton calls call ih =>
    rw [after_append] at h
    rcases step_some h with hold | ⟨hnew, -⟩
    · exact List.mem_append_left _ (ih hold)
    · rw [← hnew]
      exact List.mem_append_right _ List.mem_cons_self

/-- The calls of a key in a bucket. -/
def total (calls : List (κ × β)) (call : κ × β) : Nat := calls.countP fun c => decide (c = call)

/-- One call more of a key and window. -/
theorem total_append_self (calls : List (κ × β)) (call : κ × β) : total (calls ++ [call]) call = total calls call + 1 := by
  simp [total]

/-- A call of another key or window is not counted. -/
theorem total_append_ne (calls : List (κ × β)) {call call' : κ × β} (h : call ≠ call') :
    total (calls ++ [call]) call' = total calls call' := by
  simp [total, h]

/-- The answers to the calls of a key in a bucket. -/
def answersIn (calls : List (κ × β)) (answers : List Bool) (call : κ × β) : List Bool :=
  ((calls.zip answers).filter fun e => e.1 = call).map Prod.snd

/-- The answers of a key and window, list by list. -/
theorem answersIn_append {as bs : List (κ × β)} {xs ys : List Bool} (h : xs.length = as.length) (call : κ × β) :
    answersIn (as ++ bs) (xs ++ ys) call = answersIn as xs call ++ answersIn bs ys call := by
  unfold answersIn
  rw [List.zip_append h.symm, List.filter_append, List.map_append]

/-! ## Calls in order -/

variable [PartialOrder β]

/-- The buckets of the calls of each key do not decrease. -/
def Ordered (calls : List (κ × β)) : Prop := calls.Pairwise fun a b => a.1 = b.1 → a.2 ≤ b.2

/-- In the bucket of its last call and in later ones, the count of a key is that of its calls, up to the limit. -/
theorem count_after {calls : List (κ × β)} (h : Ordered calls) {k : κ} {b : β} (hb : ∀ call ∈ calls, call.1 = k → call.2 ≤ b) :
    count (after limit fresh calls) k b = min (limit k) (total calls (k, b)) := by
  induction calls using List.reverseRecOn generalizing k b with
  | nil => simp [after, fresh, count, total]
  | append_singleton calls call ih =>
    obtain ⟨hcalls, -, hlast⟩ := List.pairwise_append.1 h
    have hle : ∀ c ∈ calls, c.1 = call.1 → c.2 ≤ call.2 := fun c hc => hlast c hc call List.mem_cons_self
    have hold : count (after limit fresh calls) call.1 call.2 = min (limit call.1) (total calls call) := ih hcalls hle
    have hother := ih hcalls fun c hc => hb c (List.mem_append_left _ hc)
    have hcall : call.1 = k → call.2 ≤ b := hb call (by simp)
    rw [after_append]
    show count (step limit (after limit fresh calls) call).2 k b = _
    by_cases hlimit : limit call.1 ≤ count (after limit fresh calls) call.1 call.2
    · rw [step_refused hlimit, hother]
      rw [hold] at hlimit
      by_cases hsame : call = (k, b)
      · subst hsame
        rw [total_append_self]
        simp only at hlimit
        omega
      · rw [total_append_ne calls hsame]
    · rw [step_admitted hlimit]
      rw [hold] at hlimit ⊢
      by_cases hk : call.1 = k
      · subst hk
        rw [count_update_self]
        by_cases hbucket : call.2 = b
        · subst hbucket
          rw [if_pos rfl, total_append_self]
          omega
        · -- a later bucket has no calls
          have hnone : total calls (call.1, b) = 0 := by
            refine List.countP_eq_zero.2 fun c hc heq => hbucket ?_
            rw [of_decide_eq_true heq] at hc
            exact le_antisymm (hcall rfl) (hle _ hc rfl)
          rw [if_neg hbucket, total_append_ne calls (fun heq => hbucket (congrArg Prod.snd heq)), hnone, Nat.min_zero]
      · rw [count_update_ne _ (Ne.symm hk), hother, total_append_ne calls fun heq => hk (congrArg Prod.fst heq)]

/-- In each bucket the first calls of a key are admitted, up to the limit, and no others. -/
theorem answersIn_eq {calls : List (κ × β)} (h : Ordered calls) (k : κ) (b : β) :
    answersIn calls (answers limit fresh calls) (k, b) =
      List.replicate (min (limit k) (total calls (k, b))) true ++ List.replicate (total calls (k, b) - limit k) false := by
  induction calls using List.reverseRecOn with
  | nil => simp [answersIn, total]
  | append_singleton calls call ih =>
    obtain ⟨hcalls, -, hlast⟩ := List.pairwise_append.1 h
    have hle : ∀ c ∈ calls, c.1 = call.1 → c.2 ≤ call.2 := fun c hc => hlast c hc call List.mem_cons_self
    have hcount : count (after limit fresh calls) call.1 call.2 = min (limit call.1) (total calls call) := count_after hcalls hle
    rw [answers_append, answersIn_append (length_answers fresh calls), ih hcalls]
    show _ ++ answersIn [call] [(step limit (after limit fresh calls) call).1] (k, b) = _
    by_cases hsame : call = (k, b)
    · subst hsame
      have hlast' : answersIn [(k, b)] [(step limit (after limit fresh calls) (k, b)).1] (k, b) =
          [(step limit (after limit fresh calls) (k, b)).1] := by simp [answersIn]
      rw [hlast', total_append_self]
      simp only at hcount
      by_cases hlimit : limit k ≤ count (after limit fresh calls) k b
      · rw [step_refused hlimit]
        rw [hcount] at hlimit
        have hfull : min (limit k) (total calls (k, b) + 1) = min (limit k) (total calls (k, b)) := by omega
        have hmore : total calls (k, b) + 1 - limit k = total calls (k, b) - limit k + 1 := by omega
        rw [hfull, hmore, List.append_assoc, List.replicate_succ']
      · rw [step_admitted hlimit]
        rw [hcount] at hlimit
        have hroom : min (limit k) (total calls (k, b) + 1) = min (limit k) (total calls (k, b)) + 1 := by omega
        have hnone : total calls (k, b) - limit k = 0 := by omega
        have hnone' : total calls (k, b) + 1 - limit k = 0 := by omega
        rw [hroom, hnone, hnone', List.replicate_succ', List.replicate_zero, List.append_nil, List.append_nil]
    · have hnone : answersIn [call] [(step limit (after limit fresh calls) call).1] (k, b) = [] := by simp [answersIn, hsame]
      rw [hnone, List.append_nil, total_append_ne calls hsame]

example : answers (fun _ : Unit => 2) fresh [((), 0), ((), 0), ((), 0), ((), 1)] = [true, true, false, true] := by decide

end FixedWindow
