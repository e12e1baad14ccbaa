import Gwsdb.Lib.Interleaving

/-!
# Rules about the calls of a program

A rule says which calls may come after which: it is a condition on a call and on the calls made before it, with their replies. A
program follows a rule if it does so whatever it is replied (`Follows`). In an interleaving of such programs every call of every
thread keeps the rule, and the calls it looks back on were made at earlier moments (`Run.follows_label`). A program of one service
is also one of a larger service (`hoist`).
-/

namespace Interleave

namespace Prog

variable {E E' : Type} {R : E → Type} {R' : E' → Type} {ε α β σ : Type}

/-! ## Rules -/

/-- After the calls of `hist`, every further call of the program satisfies the rule. -/
def Follows (P : List (Event E R σ) → E → Prop) : List (Event E R σ) → Prog E R ε α → Prop
  | _, ret _ => True
  | _, fail _ => True
  | hist, call e k => P hist e ∧ ∀ s r, Follows P (hist ++ [⟨s, e, r⟩]) (k r)

variable {P : List (Event E R σ) → E → Prop} {hist : List (Event E R σ)}

@[simp] theorem follows_ret (a : α) : (ret a : Prog E R ε α).Follows P hist := trivial

@[simp] theorem follows_fail (e : ε) : (fail e : Prog E R ε α).Follows P hist := trivial

@[simp] theorem follows_call (e : E) (k : R e → Prog E R ε α) :
    (call e k).Follows P hist ↔ P hist e ∧ ∀ s r, (k r).Follows P (hist ++ [⟨s, e, r⟩]) := Iff.rfl

/-- A call before a cut program. -/
theorem After.cons {e : E} {k : R e → Prog E R ε α} {s : σ} {r : R e} {es : List (Event E R σ)} {q : Prog E R ε α}
    (h : After (k r) es q) : After (call e k) (⟨s, e, r⟩ :: es) q := by
  induction h with
  | nil => exact @After.snoc _ _ _ _ _ _ [] ⟨s, e, r⟩ k After.nil
  | snoc ev _ ih => exact After.snoc ev ih

/-- The rule of sequencing: the second program starts after all the calls of the first. -/
theorem Follows.bind {p : Prog E R ε α} {f : α → Prog E R ε β} (hp : p.Follows P hist)
    (hf : ∀ a es, After p es (ret a) → (f a).Follows P (hist ++ es)) : (p >>= f).Follows P hist := by
  induction p generalizing hist with
  | ret a =>
    have h := hf a [] After.nil
    rwa [List.append_nil] at h
  | fail e => trivial
  | call e k ih =>
    refine ⟨hp.1, fun s r => ih r (hp.2 s r) fun a es hes => ?_⟩
    have h := hf a (⟨s, e, r⟩ :: es) (After.cons hes)
    rwa [List.append_assoc]

/-- Every program follows a rule that allows every call. -/
theorem follows_of_forall (hP : ∀ es e, P es e) (p : Prog E R ε α) : p.Follows P hist := by
  induction p generalizing hist with
  | ret a => trivial
  | fail e => trivial
  | call e k ih => exact ⟨hP hist e, fun s r => ih r⟩

/-- The rest of a program that was cut follows the rule, and each call it has made was allowed. -/
theorem After.follows {p : Prog E R ε α} {es : List (Event E R σ)} {q : Prog E R ε α} (h : After p es q) (hp : p.Follows P hist) :
    q.Follows P (hist ++ es) ∧ ∀ pre ev post, es = pre ++ ev :: post → P (hist ++ pre) ev.call := by
  induction h with
  | nil =>
    rw [List.append_nil]
    refine ⟨hp, fun pre ev post hes => ?_⟩
    cases pre <;> cases hes
  | @snoc es ev k _ ih =>
    obtain ⟨⟨hcall, hrest⟩, hall⟩ := ih
    refine ⟨?_, fun pre ev' post hes => ?_⟩
    · rw [← List.append_assoc]
      exact hrest ev.state ev.reply
    · rcases List.eq_nil_or_concat post with rfl | ⟨post, last, rfl⟩
      · obtain ⟨rfl, heq⟩ := List.append_inj' hes rfl
        cases heq
        exact hcall
      · rw [List.concat_eq_append, ← List.cons_append, ← List.append_assoc] at hes
        exact hall pre ev' post (List.append_inj' hes rfl).1

/-! ## Programs of a larger service -/

/-- A program whose calls are made as calls of another service. -/
def hoist (emb : E → E') (back : ∀ e, R' (emb e) → R e) : Prog E R ε α → Prog E' R' ε α
  | ret a => ret a
  | fail e => fail e
  | call e k => call (emb e) fun r => hoist emb back (k (back e r))

/-- It follows a rule where the program itself follows the rule for the calls it stands for. -/
theorem Follows.hoist {emb : E → E'} {back : ∀ e, R' (emb e) → R e} {P' : List (Event E' R' σ) → E' → Prop}
    {hist' : List (Event E' R' σ)} {T : List (Event E R σ) → List (Event E' R' σ) → Prop} {p : Prog E R ε α}
    (hp : p.Follows P hist) (htrace : T hist hist')
    (hsnoc : ∀ es es', T es es' → ∀ s e r, T (es ++ [⟨s, e, back e r⟩]) (es' ++ [⟨s, emb e, r⟩]))
    (hP : ∀ es es', T es es' → ∀ e, P es e → P' es' (emb e)) : (p.hoist emb back).Follows P' hist' := by
  induction p generalizing hist hist' with
  | ret a => trivial
  | fail e => trivial
  | call e k ih => exact ⟨hP _ _ htrace e hp.1, fun s r => ih _ (hp.2 s _) (hsnoc _ _ htrace s e r)⟩

end Prog

/-- Where no element of a kind comes after another one, there is at most one. -/
theorem countP_le_one {α : Type} {p : α → Bool} {l : List α}
    (h : ∀ pre a post, l = pre ++ a :: post → p a = true → ∀ b ∈ pre, p b = false) : l.countP p ≤ 1 := by
  induction l using List.reverseRecOn with
  | nil => exact Nat.zero_le 1
  | append_singleton l a ih =>
    rw [List.countP_append, List.countP_singleton]
    cases hp : p a with
    | false => exact ih fun pre b post hl => h pre b (post ++ [a]) (by rw [hl, List.append_assoc, List.cons_append])
    | true =>
      have hnone : l.countP p = 0 := List.countP_eq_zero.2 fun b hb => by simp [h l a [] rfl hp b hb]
      rw [hnone]
      rfl

/-- Where each element of a kind has fewer than `k` before it, apart from some, there are no more than `k` and those. -/
theorem countP_range_le {p q : Nat → Bool} {k n : Nat} (h : ∀ j < n, p j = true → q j = false → (List.range j).countP p < k) :
    (List.range n).countP p ≤ k + (List.range n).countP q := by
  induction n with
  | zero => exact Nat.zero_le _
  | succ n ih =>
    have hold := ih fun j hj => h j (hj.trans n.lt_succ_self)
    have hlast := h n n.lt_succ_self
    rw [List.range_succ, List.countP_append, List.countP_append, List.countP_singleton, List.countP_singleton]
    cases hp : p n with
    | false => exact hold.trans (Nat.add_le_add_left (Nat.le_add_right _ _) k)
    | true =>
      cases hq : q n with
      | true => exact Nat.add_le_add_right hold 1
      | false => exact Nat.succ_le_of_lt ((hlast hp hq).trans_le (Nat.le_add_right k _))

/-! ## Interleavings -/

namespace Run

variable {E : Type} {R : E → Type} {ε α σ τ : Type} {start : τ → Prog E R ε α} {H : Service E R σ}

/-- In a run of programs that follow a rule, each call that a thread has made was allowed after those it had made before. -/
theorem follows_hist (r : Run start H) {P : τ → List (Prog.Event E R σ) → E → Prop} (hP : ∀ t, (start t).Follows (P t) [])
    {n : Nat} {t : Thread E R ε α σ τ} (ht : t ∈ (r.config n).threads)
    {pre post : List (Prog.Event E R σ)} {ev : Prog.Event E R σ}
    (hev : t.hist = pre ++ ev :: post) : P t.task pre ev.call :=
  ((r.thread_spec n t ht).1.follows (hP t.task)).2 pre ev post hev

/-- And the call of a step is allowed after those that its thread has made so far. -/
theorem follows_label (r : Run start H) {P : τ → List (Prog.Event E R σ) → E → Prop} (hP : ∀ t, (start t).Follows (P t) [])
    {n : Nat} {e : E} (h : r.label n = some e) : ∃ t ∈ (r.config n).threads, r.Recorded 0 n t.hist ∧ P t.task t.hist e := by
  obtain ⟨t, ht, k, hk⟩ := r.thread_of_label h
  obtain ⟨hafter, hrecorded⟩ := r.thread_spec n t ht
  have hfollows := (hafter.follows (hP t.task)).1
  rw [hk] at hfollows
  exact ⟨t, ht, hrecorded, hfollows.1⟩

/-- The calls that the threads have made, taken together, are those of the steps so far. -/
theorem sum_countP_hist (r : Run start H) (p : Prog.Event E R σ → Bool) (n : Nat) :
    ((r.config n).threads.map fun t => t.hist.countP p).sum =
      (List.range n).countP fun i => (r.label i).any fun e => p ⟨r.state i, e, (H e (r.state i)).1⟩ := by
  induction n with
  | zero =>
    rw [r.init]
    rfl
  | succ n ih =>
    rw [List.range_succ, List.countP_append, List.countP_singleton, ← ih]
    rcases r.threads_succ n with ⟨hl, t, hthreads⟩ | ⟨pre, post, t, e, k, hist, hl, hold, hnew⟩
    · rw [hthreads, hl]
      simp
    · rw [hold, hnew, hl]
      simp only [List.map_append, List.map_cons, List.sum_append, List.sum_cons, List.countP_append, List.countP_singleton,
        Option.any_some]
      omega

end Run

end Interleave
