import Gwsdb.Lib.Program
import Mathlib.Tactic

/-!
# Interleavings of programs

Any number of threads, each running the program of its task, share one service. At each step either a new thread starts or one
thread makes its next call, so a run is one interleaving of all the threads at the granularity of calls. A thread carries the
calls it has made so far with the states they ran on. Nothing in the semantics reads that history: it is there for statements.
-/

namespace Interleave

variable {E : Type} {R : E → Type} {ε α σ τ : Type}

/-- A thread: its task, what is left of its program, and the calls it has made. -/
structure Thread (E : Type) (R : E → Type) (ε α σ τ : Type) where
  task : τ
  prog : Prog E R ε α
  hist : List (Prog.Event E R σ)

/-- A configuration: the state of the service and the threads, in the order they started. -/
structure Config (E : Type) (R : E → Type) (ε α σ τ : Type) where
  state : σ
  threads : List (Thread E R ε α σ τ)

/-- One step, labelled by the call it makes: a thread starts (no call), or one thread makes its next call. -/
inductive Step (start : τ → Prog E R ε α) (H : Service E R σ) :
    Option E → Config E R ε α σ τ → Config E R ε α σ τ → Prop
  | spawn (s : σ) (ts : List (Thread E R ε α σ τ)) (t : τ) :
      Step start H none ⟨s, ts⟩ ⟨s, ts ++ [⟨t, start t, []⟩]⟩
  | call (s : σ) (pre post : List (Thread E R ε α σ τ)) (t : τ) (e : E) (k : R e → Prog E R ε α)
      (hist : List (Prog.Event E R σ)) :
      Step start H (some e) ⟨s, pre ++ ⟨t, .call e k, hist⟩ :: post⟩
        ⟨(H e s).2, pre ++ ⟨t, k (H e s).1, hist ++ [⟨s, e, (H e s).1⟩]⟩ :: post⟩

/-- A run: configurations in time, each after the first by one step, and the calls those steps make. A run starts without
threads. -/
structure Run (start : τ → Prog E R ε α) (H : Service E R σ) where
  config : Nat → Config E R ε α σ τ
  label : Nat → Option E
  init : (config 0).threads = []
  step : ∀ n, Step start H (label n) (config n) (config (n + 1))

namespace Run

variable {start : τ → Prog E R ε α} {H : Service E R σ}

/-- The state of the service at a moment of the run. -/
def state (r : Run start H) (n : Nat) : σ := (r.config n).state

/-- A step without a call leaves the state alone. -/
theorem state_of_none (r : Run start H) {n : Nat} (h : r.label n = none) : r.state (n + 1) = r.state n := by
  have hs := r.step n
  rw [h] at hs
  unfold state
  generalize r.config n = c at hs ⊢
  generalize r.config (n + 1) = c' at hs ⊢
  cases hs
  rfl

/-- A step that makes a call moves the state as the service does. -/
theorem state_of_some (r : Run start H) {n : Nat} {e : E} (h : r.label n = some e) :
    r.state (n + 1) = (H e (r.state n)).2 := by
  have hs := r.step n
  rw [h] at hs
  unfold state
  generalize r.config n = c at hs ⊢
  generalize r.config (n + 1) = c' at hs ⊢
  cases hs
  rfl

/-- An invariant of the states that every call of the run keeps holds at every later moment. -/
theorem invariant_from (r : Run start H) {I : σ → Prop} {m : Nat} (hm : I (r.state m))
    (hI : ∀ n e, m ≤ n → r.label n = some e → I (r.state n) → I (H e (r.state n)).2) : ∀ n, m ≤ n → I (r.state n) := by
  intro n hn
  induction n, hn using Nat.le_induction with
  | base => exact hm
  | succ n hn ih =>
    cases hl : r.label n with
    | none => rw [r.state_of_none hl]; exact ih
    | some e => rw [r.state_of_some hl]; exact hI n e hn hl ih

/-- A reflexive and transitive relation that holds across every call of the run holds between any two moments in order. -/
theorem related (r : Run start H) {Q : σ → σ → Prop} (hrefl : ∀ s, Q s s) (htrans : ∀ a b c, Q a b → Q b c → Q a c)
    (hQ : ∀ n e, r.label n = some e → Q (r.state n) (H e (r.state n)).2) {m n : Nat} (hmn : m ≤ n) :
    Q (r.state m) (r.state n) :=
  r.invariant_from (I := Q (r.state m)) (hrefl _)
    (fun k e _ hl ih => htrans _ _ _ ih (hQ k e hl)) n hmn

/-- A history that the run bears out: its calls were made at increasing moments from `m` on and before `n`, each on the state of
its moment, answered by the service. -/
def Recorded (r : Run start H) (m n : Nat) : List (Prog.Event E R σ) → Prop
  | [] => True
  | ev :: es => ∃ i, m ≤ i ∧ i < n ∧ r.label i = some ev.call ∧ ev.state = r.state i ∧ ev.reply = (H ev.call (r.state i)).1 ∧
      r.Recorded (i + 1) n es

theorem Recorded.mono {r : Run start H} {m m' n n' : Nat} (hm : m' ≤ m) (hn : n ≤ n') {es : List (Prog.Event E R σ)}
    (h : r.Recorded m n es) : r.Recorded m' n' es := by
  induction es generalizing m m' with
  | nil => trivial
  | cons ev es ih =>
    obtain ⟨i, hmi, hin, hl, hs, hr, hes⟩ := h
    exact ⟨i, hm.trans hmi, hin.trans_le hn, hl, hs, hr, ih (le_refl _) hes⟩

/-- A history goes on with a call made at the moment it ends. -/
theorem Recorded.snoc {r : Run start H} {m n : Nat} (hmn : m ≤ n) {es : List (Prog.Event E R σ)} (h : r.Recorded m n es)
    {ev : Prog.Event E R σ} (hl : r.label n = some ev.call) (hs : ev.state = r.state n)
    (hr : ev.reply = (H ev.call (r.state n)).1) : r.Recorded m (n + 1) (es ++ [ev]) := by
  induction es generalizing m with
  | nil => exact ⟨n, hmn, n.lt_succ_self, hl, hs, hr, trivial⟩
  | cons ev' es ih =>
    obtain ⟨i, hmi, hin, hl', hs', hr', hes⟩ := h
    exact ⟨i, hmi, hin.trans n.lt_succ_self, hl', hs', hr', ih hin hes⟩

/-- A history of two parts is recorded in two parts of the run. -/
theorem Recorded.append {r : Run start H} {m n : Nat} {es₁ es₂ : List (Prog.Event E R σ)}
    (h : r.Recorded m n (es₁ ++ es₂)) : ∃ i, m ≤ i ∧ r.Recorded m i es₁ ∧ r.Recorded i n es₂ := by
  induction es₁ generalizing m with
  | nil => exact ⟨m, le_refl _, trivial, h⟩
  | cons ev es ih =>
    obtain ⟨i, hmi, hin, hl, hs, hr, hes⟩ := h
    obtain ⟨j, hij, h₁, h₂⟩ := ih hes
    exact ⟨j, hmi.trans (i.le_succ.trans hij), ⟨i, hmi, hij, hl, hs, hr, h₁⟩, h₂⟩

/-- A recorded call was made at some moment of the run. -/
theorem Recorded.of_mem {r : Run start H} {m n : Nat} {es : List (Prog.Event E R σ)} (h : r.Recorded m n es)
    {ev : Prog.Event E R σ} (hev : ev ∈ es) :
    ∃ i, m ≤ i ∧ i < n ∧ r.label i = some ev.call ∧ ev.state = r.state i ∧ ev.reply = (H ev.call (r.state i)).1 := by
  induction es generalizing m with
  | nil => cases hev
  | cons ev' es ih =>
    obtain ⟨i, hmi, hin, hl, hs, hr, hes⟩ := h
    rcases List.mem_cons.1 hev with rfl | hev
    · exact ⟨i, hmi, hin, hl, hs, hr⟩
    · obtain ⟨j, hij, hj⟩ := ih hes hev
      exact ⟨j, hmi.trans (i.le_succ.trans hij), hj⟩

/-- Every thread of a run is its task's program cut after the calls of its history, and the run bears that history out. -/
theorem thread_spec (r : Run start H) (n : Nat) :
    ∀ t ∈ (r.config n).threads, (start t.task).After t.hist t.prog ∧ r.Recorded 0 n t.hist := by
  induction n with
  | zero => rw [r.init]; simp
  | succ n ih =>
    intro t ht
    have hs := r.step n
    have hst : r.state n = (r.config n).state := rfl
    generalize hl : r.label n = l at hs
    generalize r.config n = c at hs ih hst
    generalize r.config (n + 1) = c' at hs ht
    cases hs with
    | spawn s ts t' =>
      rcases List.mem_append.1 ht with ht | ht
      · exact ⟨(ih t ht).1, (ih t ht).2.mono (le_refl _) n.le_succ⟩
      · rw [List.mem_singleton.1 ht]
        exact ⟨Prog.After.nil, trivial⟩
    | call s pre post t' e k hist =>
      have hold : ∀ u ∈ pre ++ ⟨t', .call e k, hist⟩ :: post,
          (start u.task).After u.hist u.prog ∧ r.Recorded 0 (n + 1) u.hist :=
        fun u hu => ⟨(ih u hu).1, (ih u hu).2.mono (le_refl _) n.le_succ⟩
      rcases List.mem_append.1 ht with ht | ht
      · exact hold t (by simp [ht])
      rcases List.mem_cons.1 ht with rfl | ht
      · have hme := ih ⟨t', .call e k, hist⟩ (by simp)
        have hrec : r.Recorded 0 (n + 1) (hist ++ [⟨s, e, (H e s).1⟩]) := by
          refine hme.2.snoc n.zero_le hl hst.symm ?_
          rw [hst]
        exact ⟨Prog.After.snoc ⟨s, e, (H e s).1⟩ hme.1, hrec⟩
      · exact hold t (by simp [ht])

/-- What a step does to the threads: a thread starts, or one of them makes its next call. -/
theorem threads_succ (r : Run start H) (n : Nat) :
    (r.label n = none ∧ ∃ t, (r.config (n + 1)).threads = (r.config n).threads ++ [⟨t, start t, []⟩]) ∨
      ∃ pre post t e k hist, r.label n = some e ∧ (r.config n).threads = pre ++ ⟨t, .call e k, hist⟩ :: post ∧
        (r.config (n + 1)).threads =
          pre ++ ⟨t, k (H e (r.state n)).1, hist ++ [⟨r.state n, e, (H e (r.state n)).1⟩]⟩ :: post := by
  have hs := r.step n
  unfold state
  generalize r.label n = l at hs
  generalize r.config n = c at hs ⊢
  generalize r.config (n + 1) = c' at hs ⊢
  cases hs with
  | spawn s ts t => exact Or.inl ⟨rfl, t, rfl⟩
  | call s pre post t e k hist => exact Or.inr ⟨pre, post, t, e, k, hist, rfl, rfl, rfl⟩

/-- A thread that started after a moment made all its calls after it. -/
theorem recorded_since (r : Run start H) {m n : Nat} (hmn : m ≤ n) {j : Nat} {t : Thread E R ε α σ τ}
    (ht : (r.config n).threads[j]? = some t) (hj : (r.config m).threads.length ≤ j) : r.Recorded m n t.hist := by
  induction n, hmn using Nat.le_induction generalizing t with
  | base => exact absurd (List.getElem?_eq_some_iff.1 ht).1 (not_lt.2 hj)
  | succ n hmn ih =>
    rcases r.threads_succ n with ⟨-, u, hthreads⟩ | ⟨pre, post, u, e, k, hist, hl, hold, hnew⟩
    · rw [hthreads, List.getElem?_append] at ht
      split at ht
      · exact (ih ht).mono (le_refl m) n.le_succ
      · rw [List.mem_singleton.1 (List.mem_of_getElem? ht)]
        trivial
    · rw [hnew, List.getElem?_append] at ht
      rw [hold] at ih
      split at ht
      · refine (ih ?_).mono (le_refl m) n.le_succ
        rw [List.getElem?_append_left ‹_›]
        exact ht
      · rename_i hpre
        cases hjk : j - pre.length with
        | zero =>
          rw [hjk, List.getElem?_cons_zero] at ht
          cases ht
          have hrec : r.Recorded m n hist := ih (t := ⟨u, .call e k, hist⟩)
            (by rw [List.getElem?_append_right (not_lt.1 hpre), hjk, List.getElem?_cons_zero])
          show r.Recorded m (n + 1) (hist ++ [⟨r.state n, e, (H e (r.state n)).1⟩])
          exact hrec.snoc hmn hl rfl rfl
        | succ i =>
          rw [hjk, List.getElem?_cons_succ] at ht
          refine (ih ?_).mono (le_refl m) n.le_succ
          rw [List.getElem?_append_right (not_lt.1 hpre), hjk, List.getElem?_cons_succ]
          exact ht

/-- A task that was started stays. -/
theorem task_mono (r : Run start H) {m n : Nat} (hmn : m ≤ n) {t : Thread E R ε α σ τ} (ht : t ∈ (r.config m).threads) :
    ∃ t' ∈ (r.config n).threads, t'.task = t.task := by
  induction n, hmn using Nat.le_induction with
  | base => exact ⟨t, ht, rfl⟩
  | succ n _ ih =>
    obtain ⟨t', ht', htask⟩ := ih
    rcases r.threads_succ n with ⟨-, u, hthreads⟩ | ⟨pre, post, u, e, k, hist, -, hold, hnew⟩
    · rw [hthreads]
      exact ⟨t', List.mem_append_left _ ht', htask⟩
    · rw [hnew]
      rw [hold] at ht'
      rcases List.mem_append.1 ht' with h | h
      · exact ⟨t', List.mem_append_left _ h, htask⟩
      rcases List.mem_cons.1 h with rfl | h
      · exact ⟨_, List.mem_append_right _ List.mem_cons_self, htask⟩
      · exact ⟨t', List.mem_append_right _ (List.mem_cons_of_mem _ h), htask⟩

/-- A call of a run is the next call of one of its threads. -/
theorem thread_of_label (r : Run start H) {n : Nat} {e : E} (h : r.label n = some e) :
    ∃ t ∈ (r.config n).threads, ∃ k, t.prog = .call e k := by
  have hs := r.step n
  rw [h] at hs
  generalize r.config n = c at hs ⊢
  generalize r.config (n + 1) = c' at hs
  cases hs with
  | call s pre post t e k hist => exact ⟨⟨t, .call e k, hist⟩, by simp, k, rfl⟩

/-- Every call of a run is one that some task's program can make. -/
theorem makes_label (r : Run start H) {P : E → Prop} (hP : ∀ t, (start t).Makes P) {n : Nat} {e : E}
    (h : r.label n = some e) : P e := by
  obtain ⟨t, ht, k, hk⟩ := r.thread_of_label h
  have hmakes := ((r.thread_spec n t ht).1.makes (hP t.task)).2
  rw [hk] at hmakes
  exact hmakes.1

end Run

end Interleave
