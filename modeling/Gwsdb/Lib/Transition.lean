import Mathlib.Data.List.Basic
import Mathlib.Logic.Relation

/-!
# Transition systems

A system moves by actions: `next s a` is the state after action `a`, or `none` where the action is not possible in `s`. A run is
the list of its actions. The rules carry what one action keeps to what a whole run keeps, also for runs whose every step meets a
condition on the state it starts from.
-/

namespace Transition

variable {σ α : Type} {next : σ → α → Option σ}

/-- The state after a list of actions, or `none` where one of them is not possible. -/
def run (next : σ → α → Option σ) : σ → List α → Option σ
  | s, [] => some s
  | s, a :: as => (next s a).bind fun s' => run next s' as

/-- Every step of the run meets a condition on the state it starts from and its action. -/
def Meets (next : σ → α → Option σ) (C : σ → α → Prop) : σ → List α → Prop
  | _, [] => True
  | s, a :: as => C s a ∧ ∀ s', next s a = some s' → Meets next C s' as

@[simp] theorem run_nil (s : σ) : run next s [] = some s := rfl

theorem run_cons {s s'' : σ} {a : α} {as : List α} :
    run next s (a :: as) = some s'' ↔ ∃ s', next s a = some s' ∧ run next s' as = some s'' := by
  rw [run, Option.bind_eq_some_iff]

/-- A run that meets the condition, from a step that meets it. -/
theorem Meets.cons {C : σ → α → Prop} {s s' : σ} {a : α} {as : List α} (h : next s a = some s') (hC : C s a)
    (has : Meets next C s' as) : Meets next C s (a :: as) := by
  refine ⟨hC, fun s'' h' => ?_⟩
  rw [h] at h'
  cases h'
  exact has

/-- A run whose actions all meet a condition meets it at every step. -/
theorem Meets.of_forall {C : α → Prop} {as : List α} (h : ∀ a ∈ as, C a) (s : σ) : Meets next (fun _ a => C a) s as := by
  induction as generalizing s with
  | nil => trivial
  | cons a as ih => exact ⟨h a List.mem_cons_self, fun s' _ => ih (fun a' ha' => h a' (List.mem_cons_of_mem a ha')) s'⟩

/-- A run of two parts meets the condition where both do. -/
theorem Meets.append {C : σ → α → Prop} {s : σ} {as bs : List α} (has : Meets next C s as)
    (hbs : ∀ s', run next s as = some s' → Meets next C s' bs) : Meets next C s (as ++ bs) := by
  induction as generalizing s with
  | nil => exact hbs s rfl
  | cons a as ih => exact ⟨has.1, fun s' h => ih (has.2 s' h) fun s'' hr => hbs s'' (by rw [run, h]; exact hr)⟩

/-- A run of two parts passes through the state between them. -/
theorem run_append {s s'' : σ} {as bs : List α} :
    run next s (as ++ bs) = some s'' ↔ ∃ s', run next s as = some s' ∧ run next s' bs = some s'' := by
  induction as generalizing s with
  | nil => simp
  | cons a as ih =>
    simp only [List.cons_append, run_cons, ih]
    constructor
    · rintro ⟨s₁, h₁, s₂, h₂, h₃⟩
      exact ⟨s₂, ⟨s₁, h₁, h₂⟩, h₃⟩
    · rintro ⟨s₂, ⟨s₁, h₁, h₂⟩, h₃⟩
      exact ⟨s₁, h₁, s₂, h₂, h₃⟩

/-- What every action that meets the condition keeps, a run whose steps all meet it keeps. -/
theorem invariant_of_meets {C : σ → α → Prop} {I : σ → Prop}
    (hI : ∀ s a s', next s a = some s' → C s a → I s → I s') {s s' : σ} {as : List α} (hr : run next s as = some s')
    (hC : Meets next C s as) (hs : I s) : I s' := by
  induction as generalizing s with
  | nil =>
    rw [run_nil] at hr
    cases hr
    exact hs
  | cons a as ih =>
    obtain ⟨s₁, h₁, h₂⟩ := run_cons.1 hr
    exact ih h₂ (hC.2 s₁ h₁) (hI s a s₁ h₁ hC.1 hs)

/-- A run whose steps meet a condition meets what follows from it and from what such steps keep. -/
theorem Meets.of_invariant {C D : σ → α → Prop} {I : σ → Prop} (hI : ∀ s a s', next s a = some s' → C s a → I s → I s')
    (hD : ∀ s a, I s → C s a → D s a) {s : σ} {as : List α} (hC : Meets next C s as) (hs : I s) : Meets next D s as := by
  induction as generalizing s with
  | nil => trivial
  | cons a as ih => exact ⟨hD s a hs hC.1, fun s' h => ih (hC.2 s' h) (hI s a s' h hC.1 hs)⟩

/-- What every action keeps, a run keeps. -/
theorem invariant {I : σ → Prop} (hI : ∀ s a s', next s a = some s' → I s → I s') {s s' : σ} {as : List α}
    (hr : run next s as = some s') (hs : I s) : I s' := by
  induction as generalizing s with
  | nil =>
    rw [run_nil] at hr
    cases hr
    exact hs
  | cons a as ih =>
    obtain ⟨s₁, h₁, h₂⟩ := run_cons.1 hr
    exact ih h₂ (hI s a s₁ h₁ hs)

/-- A run keeps to `E` at every moment exactly when its steps all meet `C`, where an invariant gives `E`, a step from the
invariant ends in `E` exactly when it meets `C`, and such a step keeps the invariant. -/
theorem always_iff_meets {C : σ → α → Prop} {I E : σ → Prop} (hIE : ∀ s, I s → E s)
    (hE : ∀ s a s', next s a = some s' → I s → (E s' ↔ C s a))
    (hI : ∀ s a s', next s a = some s' → C s a → I s → I s') {s t : σ} {as : List α} (hr : run next s as = some t) (hs : I s) :
    (∀ bs s', bs <+: as → run next s bs = some s' → E s') ↔ Meets next C s as := by
  induction as generalizing s with
  | nil =>
    refine ⟨fun _ => trivial, fun _ bs s' hbs h => ?_⟩
    rw [List.prefix_nil.1 hbs, run_nil] at h
    cases h
    exact hIE _ hs
  | cons a as ih =>
    obtain ⟨s₁, h₁, h₂⟩ := run_cons.1 hr
    constructor
    · intro h
      have hE₁ : E s₁ := h [a] s₁ ⟨as, rfl⟩ (run_cons.2 ⟨s₁, h₁, rfl⟩)
      have hC : C s a := (hE s a s₁ h₁ hs).1 hE₁
      refine Meets.cons h₁ hC ((ih h₂ (hI s a s₁ h₁ hC hs)).1 fun bs s' hbs hrun => ?_)
      exact h (a :: bs) s' (List.cons_prefix_cons.2 ⟨rfl, hbs⟩) (run_cons.2 ⟨s₁, h₁, hrun⟩)
    · intro hC bs s' hbs hrun
      cases bs with
      | nil =>
        cases hrun
        exact hIE _ hs
      | cons b bs =>
        obtain ⟨rfl, hpre⟩ := List.cons_prefix_cons.1 hbs
        obtain ⟨s₂, h₃, h₄⟩ := run_cons.1 hrun
        rw [h₁] at h₃
        cases h₃
        exact (ih h₂ (hI s b s₁ h₁ hC.1 hs)).2 (hC.2 s₁ h₁) bs s' hpre h₄

/-- A reflexive and transitive relation that holds across every action of the list holds across the run. -/
theorem related {Q : σ → σ → Prop} (hrefl : ∀ s, Q s s) (htrans : ∀ a b c, Q a b → Q b c → Q a c) {as : List α}
    (hQ : ∀ s a s', a ∈ as → next s a = some s' → Q s s') {s s' : σ} (hr : run next s as = some s') : Q s s' := by
  induction as generalizing s with
  | nil =>
    rw [run_nil] at hr
    cases hr
    exact hrefl _
  | cons a as ih =>
    obtain ⟨s₁, h₁, h₂⟩ := run_cons.1 hr
    exact htrans _ _ _ (hQ s a s₁ (by simp) h₁) (ih (fun s a s' ha => hQ s a s' (by simp [ha])) h₂)

end Transition
