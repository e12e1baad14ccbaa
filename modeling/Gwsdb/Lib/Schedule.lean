import Gwsdb.Lib.Interleaving

/-!
# Runs made by a schedule

A schedule says at each moment which thread moves or which task starts. It makes a run, and the run's configurations are computed
from it, so that a run can be given by a list of decisions and looked at.
-/

namespace Interleave

variable {E : Type} {R : E → Type} {ε α σ τ : Type}

/-- A decision of the schedule: a task starts, or the thread of an index makes its next call. -/
inductive Decision (τ : Type) where
  | spawn (t : τ)
  | call (i : Nat)

/-- A task started. -/
def Config.spawn (start : τ → Prog E R ε α) (t : τ) (c : Config E R ε α σ τ) : Config E R ε α σ τ :=
  ⟨c.state, c.threads ++ [⟨t, start t, []⟩]⟩

/-- The threads after the thread of an index made its next call, and the call; nothing where that thread has no call left. -/
def callAt (H : Service E R σ) (s : σ) :
    Nat → List (Thread E R ε α σ τ) → Option (E × σ × List (Thread E R ε α σ τ))
  | _, [] => none
  | 0, t :: ts =>
    match t.prog with
    | .call e k => some (e, (H e s).2, ⟨t.task, k (H e s).1, t.hist ++ [⟨s, e, (H e s).1⟩]⟩ :: ts)
    | _ => none
  | i + 1, t :: ts => (callAt H s i ts).map fun r => (r.1, r.2.1, t :: r.2.2)

/-- The next call of a thread is a step. -/
theorem step_callAt {start : τ → Prog E R ε α} {H : Service E R σ} {s s' : σ} {i : Nat} {e : E}
    {ts ts' : List (Thread E R ε α σ τ)} (pre : List (Thread E R ε α σ τ)) (h : callAt H s i ts = some (e, s', ts')) :
    Step start H (some e) ⟨s, pre ++ ts⟩ ⟨s', pre ++ ts'⟩ := by
  induction ts generalizing i pre ts' with
  | nil => cases i <;> cases h
  | cons t ts ih =>
    obtain ⟨task, prog, hist⟩ := t
    cases i with
    | zero =>
      cases prog with
      | ret a => cases h
      | fail e => cases h
      | call e' k =>
        cases h
        exact Step.call s pre ts task e k hist
    | succ i =>
      obtain ⟨⟨e', s'', ts''⟩, hr, heq⟩ := Option.map_eq_some_iff.1 h
      cases heq
      have hstep := ih (pre ++ [⟨task, prog, hist⟩]) hr
      rwa [List.append_assoc, List.append_assoc] at hstep

/-- One decision carried out, with the call it makes; a task starts where the decision cannot be carried out. -/
def Config.carryOut (start : τ → Prog E R ε α) (H : Service E R σ) (idle : τ) (c : Config E R ε α σ τ) :
    Decision τ → Option E × Config E R ε α σ τ
  | .spawn t => (none, c.spawn start t)
  | .call i =>
    match callAt H c.state i c.threads with
    | none => (none, c.spawn start idle)
    | some (e, s, ts) => (some e, ⟨s, ts⟩)

/-- So is every decision. -/
theorem Config.step_carryOut (start : τ → Prog E R ε α) (H : Service E R σ) (idle : τ) (c : Config E R ε α σ τ) (d : Decision τ) :
    Step start H (c.carryOut start H idle d).1 c (c.carryOut start H idle d).2 := by
  cases d with
  | spawn t => exact Step.spawn c.state c.threads t
  | call i =>
    simp only [Config.carryOut]
    split
    · exact Step.spawn c.state c.threads idle
    · rename_i e s ts h
      exact step_callAt [] h

/-- The configuration after a list of decisions. -/
def Config.after (start : τ → Prog E R ε α) (H : Service E R σ) (idle : τ) (c : Config E R ε α σ τ) (ds : List (Decision τ)) :
    Config E R ε α σ τ :=
  ds.foldl (fun c d => (c.carryOut start H idle d).2) c

/-- The run of a list of decisions from a state; when they are carried out, it goes on with idle tasks. -/
def Run.scheduled (start : τ → Prog E R ε α) (H : Service E R σ) (idle : τ) (s : σ) (ds : List (Decision τ)) : Run start H where
  config n := Config.after start H idle ⟨s, []⟩ ((List.range n).map fun i => ds.getD i (.spawn idle))
  label n := ((Config.after start H idle ⟨s, []⟩ ((List.range n).map fun i => ds.getD i (.spawn idle))).carryOut start H idle
    (ds.getD n (.spawn idle))).1
  init := rfl
  step n := by
    unfold Config.after
    rw [List.range_succ, List.map_append, List.foldl_append]
    exact Config.step_carryOut start H idle _ _

@[simp] theorem Run.scheduled_zero (start : τ → Prog E R ε α) (H : Service E R σ) (idle : τ) (s : σ) (ds : List (Decision τ)) :
    (Run.scheduled start H idle s ds).state 0 = s := rfl

/-- What holds of every thread while the decisions are carried out, and of an idle task that starts, holds of every thread of the
run. -/
theorem Run.scheduled_threads {start : τ → Prog E R ε α} {H : Service E R σ} {idle : τ} {s : σ} {ds : List (Decision τ)}
    {P : Thread E R ε α σ τ → Prop} (hidle : P ⟨idle, start idle, []⟩)
    (h : ∀ n ≤ ds.length, ∀ t ∈ ((Run.scheduled start H idle s ds).config n).threads, P t) (n : Nat) :
    ∀ t ∈ ((Run.scheduled start H idle s ds).config n).threads, P t := by
  rcases Nat.le_total n ds.length with hn | hn
  · exact h n hn
  induction n, hn using Nat.le_induction with
  | base => exact h _ (le_refl _)
  | succ n hn ih =>
    have hnext : ((Run.scheduled start H idle s ds).config (n + 1)).threads =
        ((Run.scheduled start H idle s ds).config n).threads ++ [⟨idle, start idle, []⟩] := by
      show (Config.after start H idle ⟨s, []⟩ ((List.range (n + 1)).map fun i => ds.getD i (.spawn idle))).threads = _
      unfold Config.after
      have hd : ds.getD n (.spawn idle) = .spawn
        idle := by rw [List.getD_eq_getElem?_getD, List.getElem?_eq_none hn, Option.getD_none]
      rw [List.range_succ, List.map_append, List.foldl_append, List.map_singleton, hd]
      rfl
    rw [hnext]
    intro t ht
    rcases List.mem_append.1 ht with ht | ht
    · exact ih t ht
    · rw [List.mem_singleton.1 ht]
      exact hidle

/-- The answer of a program that has ended. -/
def Prog.answer? : Prog E R ε α → Option α
  | .ret a => some a
  | _ => none

/-- A program with an answer has ended. -/
theorem Prog.answer?_eq_some {p : Prog E R ε α} {a : α} (h : p.answer? = some a) : p = .ret a := by
  cases p with
  | ret b => cases h; rfl
  | fail e => cases h
  | call e k => cases h

/-- The error of a program that has stopped. -/
def Prog.error? : Prog E R ε α → Option ε
  | .fail e => some e
  | _ => none

/-- A program without an error has not failed. -/
theorem Prog.ne_fail {p : Prog E R ε α} (h : p.error? = none) (e : ε) : p ≠ .fail e := by
  rintro rfl
  cases h

/-! ## Tasks in turn -/

/-- The number of calls a program makes when it runs alone. -/
def Prog.calls (H : Service E R σ) : Prog E R ε α → σ → Nat
  | .call e k, s => (k (H e s).1).calls H (H e s).2 + 1
  | _, _ => 0

/-- The state after tasks that run alone to their ends, one after the other. -/
def inTurn (start : τ → Prog E R ε α) (H : Service E R σ) (s : σ) (ts : List τ) : σ :=
  ts.foldl (fun s t => ((start t).run H s).2) s

@[simp] theorem inTurn_nil (start : τ → Prog E R ε α) (H : Service E R σ) (s : σ) : inTurn start H s [] = s := rfl

@[simp] theorem inTurn_cons (start : τ → Prog E R ε α) (H : Service E R σ) (s : σ) (t : τ) (ts : List τ) :
    inTurn start H s (t :: ts) = inTurn start H ((start t).run H s).2 ts := rfl

/-- Two lists of tasks run one after the other. -/
theorem inTurn_append (start : τ → Prog E R ε α) (H : Service E R σ) (s : σ) (ts us : List τ) :
    inTurn start H s (ts ++ us) = inTurn start H (inTurn start H s ts) us := by
  unfold inTurn
  rw [List.foldl_append]

/-- The decisions that run tasks in turn, the first of them as the thread of index `i`. -/
def decisionsInTurn (start : τ → Prog E R ε α) (H : Service E R σ) : σ → Nat → List τ → List (Decision τ)
  | _, _, [] => []
  | s, i, t :: ts => .spawn t :: List.replicate ((start t).calls H s) (.call i) ++
      decisionsInTurn start H ((start t).run H s).2 (i + 1) ts

/-- So do their decisions. -/
theorem decisionsInTurn_append (start : τ → Prog E R ε α) (H : Service E R σ) (s : σ) (i : Nat) (ts us : List τ) :
    decisionsInTurn start H s i (ts ++ us) =
      decisionsInTurn start H s i ts ++ decisionsInTurn start H (inTurn start H s ts) (i + ts.length) us := by
  induction ts generalizing s i with
  | nil => rfl
  | cons t ts ih =>
    rw [List.cons_append, decisionsInTurn, decisionsInTurn, ih, inTurn_cons, List.length_cons,
      List.append_assoc, Nat.add_assoc i 1,
      Nat.add_comm 1]

/-- The last thread makes its next call. -/
theorem callAt_last (H : Service E R σ) (s : σ) (pre : List (Thread E R ε α σ τ)) (t : τ) (e : E) (k : R e → Prog E R ε α)
    (hist : List (Prog.Event E R σ)) :
    callAt H s pre.length (pre ++ [⟨t, .call e k, hist⟩]) =
      some (e, (H e s).2, pre ++ [⟨t, k (H e s).1, hist ++ [⟨s, e, (H e s).1⟩]⟩]) := by
  induction pre with
  | nil => rfl
  | cons u pre ih =>
    rw [List.cons_append, List.length_cons, callAt, ih]
    rfl

/-- A program of so few calls is cut at its end. -/
theorem Prog.runFor_of_calls_le {H : Service E R σ} {p : Prog E R ε α} {s : σ} {n : Nat} (h : p.calls H s ≤ n) :
    p.runFor H n s = (p.run H s).2 := by
  induction p generalizing s n with
  | ret a => exact runFor_ret H n a s
  | fail e => cases n <;> rfl
  | call e k ih =>
    cases n with
    | zero => cases h
    | succ n => exact ih _ (Nat.le_of_succ_le_succ h)

/-- The last thread makes some of its calls. -/
theorem Config.after_calls_for (start : τ → Prog E R ε α) (H : Service E R σ) (idle : τ) (pre : List (Thread E R ε α σ τ)) (t : τ)
    (p : Prog E R ε α) (hist : List (Prog.Event E R σ)) (s : σ) {n : Nat} (hn : n ≤ p.calls H s) :
    ∃ last, Config.after start H idle ⟨s, pre ++ [⟨t, p, hist⟩]⟩ (List.replicate n (.call pre.length)) =
      ⟨p.runFor H n s, pre ++ [last]⟩ := by
  induction n generalizing p s hist with
  | zero => exact ⟨⟨t, p, hist⟩, by rw [Prog.runFor_zero]; rfl⟩
  | succ n ih =>
    cases p with
    | ret a => cases hn
    | fail e => cases hn
    | call e k =>
      obtain ⟨last, hlast⟩ := ih (k (H e s).1) (hist ++ [⟨s, e, (H e s).1⟩]) (H e s).2 (Nat.le_of_succ_le_succ hn)
      refine ⟨last, ?_⟩
      rw [List.replicate_succ, Prog.runFor_call_succ, ← hlast, Config.after, List.foldl_cons, Config.carryOut, callAt_last]
      rfl

/-- The last thread makes all its calls. -/
theorem Config.after_calls (start : τ → Prog E R ε α) (H : Service E R σ) (idle : τ) (pre : List (Thread E R ε α σ τ)) (t : τ)
    (p : Prog E R ε α) (hist : List (Prog.Event E R σ)) (s : σ) :
    ∃ last, Config.after start H idle ⟨s, pre ++ [⟨t, p, hist⟩]⟩ (List.replicate (p.calls H s) (.call pre.length)) =
      ⟨(p.run H s).2, pre ++ [last]⟩ := by
  rw [← Prog.runFor_of_calls_le (le_refl (p.calls H s))]
  exact Config.after_calls_for start H idle pre t p hist s (le_refl _)

/-- Tasks in turn leave the threads before them alone, and one thread for each. -/
theorem Config.after_decisionsInTurn (start : τ → Prog E R ε α) (H : Service E R σ) (idle : τ) (ts : List τ) (s : σ)
    (pre : List (Thread E R ε α σ τ)) : ∃ threads, threads.length = ts.length ∧
      Config.after start H idle ⟨s, pre⟩ (decisionsInTurn start H s pre.length ts) = ⟨inTurn start H s ts, pre ++ threads⟩ := by
  induction ts generalizing s pre with
  | nil => exact ⟨[], rfl, by rw [List.append_nil]; rfl⟩
  | cons t ts ih =>
    obtain ⟨last, hlast⟩ := Config.after_calls start H idle pre t (start t) [] s
    obtain ⟨threads, hlength, hthreads⟩ := ih ((start t).run H s).2 (pre ++ [last])
    rw [List.length_append, List.length_singleton] at hthreads
    refine ⟨last :: threads, by rw [List.length_cons, List.length_cons, hlength], ?_⟩
    rw [inTurn_cons, List.append_cons, ← hthreads, ← hlast, decisionsInTurn, List.cons_append, Config.after, List.foldl_cons,
      List.foldl_append]
    rfl

/-- Before its decisions are at an end, a run of a list of decisions is at the configuration after the first of them. -/
theorem Run.scheduled_config (start : τ → Prog E R ε α) (H : Service E R σ) (idle : τ) (s : σ) (ds ds' : List (Decision τ)) :
    (Run.scheduled start H idle s (ds ++ ds')).config ds.length = Config.after start H idle ⟨s, []⟩ ds := by
  have htake : (List.range ds.length).map (fun i => (ds ++ ds').getD i (.spawn idle)) = ds := by
    refine List.ext_getElem (by simp) fun i hi hi' => ?_
    rw [List.getElem_map, List.getElem_range, List.getD_eq_getElem?_getD,
      List.getElem?_append_left hi', List.getElem?_eq_getElem hi',
      Option.getD_some]
  exact congrArg (Config.after start H idle ⟨s, []⟩) htake

/-- The run of tasks in turn. -/
def Run.ofTasks (start : τ → Prog E R ε α) (H : Service E R σ) (idle : τ) (s : σ) (ts : List τ) : Run start H :=
  Run.scheduled start H idle s (decisionsInTurn start H s 0 ts)

@[simp] theorem Run.ofTasks_zero (start : τ → Prog E R ε α) (H : Service E R σ) (idle : τ) (s : σ) (ts : List τ) :
    (Run.ofTasks start H idle s ts).state 0 = s := rfl

/-- It comes through the state after each of its tasks. -/
theorem Run.ofTasks_after (start : τ → Prog E R ε α) (H : Service E R σ) (idle : τ) (s : σ) (ts us : List τ) :
    (Run.ofTasks start H idle s (ts ++ us)).state (decisionsInTurn start H s 0 ts).length = inTurn start H s ts := by
  obtain ⟨threads, -, hthreads⟩ := Config.after_decisionsInTurn start H idle ts s []
  rw [Run.ofTasks, decisionsInTurn_append, Run.state, Run.scheduled_config]
  exact congrArg Config.state hthreads

/-- There is a run that comes through the states of tasks in turn. -/
theorem Run.exists_inTurn (start : τ → Prog E R ε α) (H : Service E R σ) (idle : τ) (s : σ) (ts us : List τ) :
    ∃ (r : Run start H) (m n : Nat), r.state 0 = s ∧ r.state m = inTurn start H s ts ∧
        r.state n = inTurn start H s (ts ++ us) := by
  refine ⟨Run.ofTasks start H idle s (ts ++ us), (decisionsInTurn start H s 0 ts).length,
    (decisionsInTurn start H s 0 (ts ++ us)).length, rfl, Run.ofTasks_after start H idle s ts us, ?_⟩
  have hend := Run.ofTasks_after start H idle s (ts ++ us) []
  rwa [List.append_nil] at hend

/-- It comes through each state of the last task. -/
theorem Run.exists_ofTasks_within (start : τ → Prog E R ε α) (H : Service E R σ) (idle : τ) (s : σ)
    (ts : List τ) (t : τ) (k : Nat) :
    ∃ m n, m ≤ n ∧ (Run.ofTasks start H idle s (ts ++ [t])).state m = (start t).runFor H k (inTurn start H s ts) ∧
      (Run.ofTasks start H idle s (ts ++ [t])).state n = inTurn start H s (ts ++ [t]) := by
  obtain ⟨threads, hlength, hthreads⟩ := Config.after_decisionsInTurn start H idle ts s []
  have hend := Run.ofTasks_after start H idle s (ts ++ [t]) []
  rw [List.append_nil] at hend
  rcases Nat.le_total ((start t).calls H (inTurn start H s ts)) k with hk | hk
  · refine ⟨_, _, le_refl _, hend.trans ?_, hend⟩
    rw [Prog.runFor_of_calls_le hk, inTurn_append, inTurn_cons, inTurn_nil]
  obtain ⟨j, hj⟩ := Nat.exists_eq_add_of_le hk
  obtain ⟨last, hlast⟩ := Config.after_calls_for start H idle threads t (start t) [] (inTurn start H s ts) hk
  have hsplit : decisionsInTurn start H s 0 (ts ++ [t]) =
      (decisionsInTurn start H s 0 ts ++ .spawn t :: List.replicate k (.call threads.length)) ++
        List.replicate j (.call threads.length) := by
    rw [decisionsInTurn_append, decisionsInTurn, decisionsInTurn, List.append_nil, hj, List.replicate_add, hlength, Nat.zero_add,
      List.append_assoc]
    rfl
  refine ⟨(decisionsInTurn start H s 0 ts ++ Decision.spawn t :: List.replicate k (Decision.call threads.length)).length, _, ?_,
    ?_,
    hend⟩
  · rw [hsplit]
    exact (List.sublist_append_left _ _).length_le
  · rw [Run.ofTasks, hsplit, Run.state, Run.scheduled_config, Config.after, List.foldl_append]
    have hstart : List.foldl (fun c d => (Config.carryOut start H idle c d).2) ⟨s, []⟩ (decisionsInTurn start H s 0 ts) =
        ⟨inTurn start H s ts, threads⟩ := hthreads
    rw [hstart]
    exact congrArg Config.state hlast

/-! ## The calls of tasks in turn -/

/-- A call is made at a state while decisions are carried out. -/
def Config.Calls (start : τ → Prog E R ε α) (H : Service E R σ) (idle : τ) :
    Config E R ε α σ τ → List (Decision τ) → E → σ → Prop
  | _, [], _, _ => False
  | c, d :: ds, e, s => ((c.carryOut start H idle d).1 = some e ∧ s = c.state) ∨
    Calls start H idle (c.carryOut start H idle d).2 ds e s

/-- A list of decisions makes the calls of its parts. -/
theorem Config.calls_append {start : τ → Prog E R ε α} {H : Service E R σ} {idle : τ} {c : Config E R ε α σ τ}
    {ds ds' : List (Decision τ)} {e : E} {s : σ} : Config.Calls start H idle c (ds ++ ds') e s ↔
      Config.Calls start H idle c ds e s ∨ Config.Calls start H idle (c.after start H idle ds) ds' e s := by
  induction ds generalizing c with
  | nil => exact ⟨Or.inr, fun h => h.resolve_left id⟩
  | cons d ds ih =>
    rw [List.cons_append, Config.Calls, ih, Config.Calls, or_assoc]
    rfl

/-- The last thread makes the calls of its program run alone. -/
theorem Config.visits_of_calls {start : τ → Prog E R ε α} {H : Service E R σ} {idle : τ} {pre : List (Thread E R ε α σ τ)} {t : τ}
    {p : Prog E R ε α} {hist : List (Prog.Event E R σ)} {s s' : σ} {e : E}
    (h : Config.Calls start H idle ⟨s, pre ++ [⟨t, p, hist⟩]⟩ (List.replicate (p.calls H s) (.call pre.length)) e s') :
    p.Visits H s e s' := by
  induction p generalizing s hist with
  | ret a => exact h.elim
  | fail e => exact h.elim
  | call e' k ih =>
    rw [Prog.calls, List.replicate_succ, Config.Calls, Config.carryOut, callAt_last] at h
    rcases h with ⟨he, hs⟩ | h
    · exact Or.inl ⟨(Option.some.inj he).symm, hs⟩
    · exact Or.inr (ih _ h)

/-- Tasks in turn make the calls that each of them makes alone, after those before it. -/
theorem Config.visits_of_calls_inTurn {start : τ → Prog E R ε α} {H : Service E R σ} {idle : τ} {ts : List τ} {s s' : σ}
    {pre : List (Thread E R ε α σ τ)} {e : E}
    (h : Config.Calls start H idle ⟨s, pre⟩ (decisionsInTurn start H s pre.length ts) e s') :
    ∃ us t vs, ts = us ++ t :: vs ∧ (start t).Visits H (inTurn start H s us) e s' := by
  induction ts generalizing s pre with
  | nil => exact h.elim
  | cons t ts ih =>
    obtain ⟨last, hlast⟩ := Config.after_calls start H idle pre t (start t) [] s
    rw [decisionsInTurn, List.cons_append] at h
    rcases h with ⟨hnone, -⟩ | h
    · cases hnone
    rcases Config.calls_append.1 h with h | h
    · exact ⟨[], t, ts, rfl, Config.visits_of_calls h⟩
    · have hrest : Config.Calls start H idle ⟨((start t).run H s).2, pre ++ [last]⟩
          (decisionsInTurn start H ((start t).run H s).2 (pre ++ [last]).length ts) e s' := by
        rw [List.length_append, List.length_singleton, ← hlast]
        exact h
      obtain ⟨us, t', vs, rfl, hvisits⟩ := ih hrest
      exact ⟨t :: us, t', vs, rfl, hvisits⟩

/-- A call of a run of decisions is made while they are carried out. -/
theorem Run.calls_of_label {start : τ → Prog E R ε α} {H : Service E R σ} {idle : τ} {s : σ}
    {ds : List (Decision τ)} {n : Nat} {e : E}
    (h : (Run.scheduled start H idle s ds).label n = some e) :
    Config.Calls start H idle ⟨s, []⟩ ds e ((Run.scheduled start H idle s ds).state n) := by
  have hn : n < ds.length := by
    by_contra hn
    have hd : ds.getD n (.spawn idle) = .spawn idle := by
      rw [List.getD_eq_getElem?_getD, List.getElem?_eq_none (not_lt.1 hn), Option.getD_none]
    have hnone : (Run.scheduled start H idle s ds).label n = none := by
      show (Config.carryOut start H idle _ (ds.getD n (.spawn idle))).1 = none
      rw [hd]
      rfl
    rw [hnone] at h
    cases h
  have hsplit : ds = ds.take n ++ ds[n] :: ds.drop (n + 1) := by rw [List.getElem_cons_drop, List.take_append_drop]
  have hconfig := Run.scheduled_config start H idle s (ds.take n) (ds[n] :: ds.drop (n + 1))
  rw [← hsplit, List.length_take, Nat.min_eq_left hn.le] at hconfig
  have hlabel : ((Config.after start H idle ⟨s, []⟩ (ds.take n)).carryOut start H idle ds[n]).1 = some e := by
    rw [← hconfig, ← h]
    show _ = (Config.carryOut start H idle ((Run.scheduled start H idle s ds).config n) (ds.getD n (.spawn idle))).1
    rw [List.getD_eq_getElem?_getD, List.getElem?_eq_getElem hn, Option.getD_some]
  rw [Run.state, hconfig]
  conv => arg 5; rw [hsplit]
  exact Config.calls_append.2 (Or.inr (Or.inl ⟨hlabel, rfl⟩))

/-- A call of the run of tasks in turn is one that a task makes alone, after those before it. -/
theorem Run.visits_ofTasks {start : τ → Prog E R ε α} {H : Service E R σ} {idle : τ} {s : σ} {ts : List τ} {n : Nat} {e : E}
    (h : (Run.ofTasks start H idle s ts).label n = some e) : ∃ us t vs, ts = us ++ t :: vs ∧
      (start t).Visits H (inTurn start H s us) e ((Run.ofTasks start H idle s ts).state n) :=
  Config.visits_of_calls_inTurn (Run.calls_of_label h)

end Interleave
