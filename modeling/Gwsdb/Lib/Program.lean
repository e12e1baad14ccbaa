import Mathlib.Data.List.Basic
import Mathlib.Data.List.Forall2

/-!
# Programs of atomic calls

A program over a shared service answers, stops with an error, or makes one call and goes on with the reply. A call is one atomic
step of the service, so a program is a sequence of atomic steps whose later steps depend on what the earlier ones read. The
module gives the two ways a program is read: run alone to its end (`run`), and cut after some of its calls (`After`, `runFor`).
Their rules follow the program's sequencing, so a fact about a long program is put together from facts about its parts.
-/

namespace Interleave

/-- A program: an answer, an error, or a call and what is done with its reply. -/
inductive Prog (E : Type) (R : E → Type) (ε α : Type) : Type where
  | ret (a : α)
  | fail (e : ε)
  | call (e : E) (k : R e → Prog E R ε α)

/-- A service answers each call and moves its state, in one atomic step. -/
abbrev Service (E : Type) (R : E → Type) (σ : Type) : Type := (e : E) → σ → R e × σ

variable {E : Type} {R : E → Type} {ε α β γ σ : Type}

/-! ## Computations that may fail -/

/-- A list mapped with a computation that may fail is mapped element by element. -/
theorem mapM_ok_iff {f : α → Except ε β} {l : List α} {bs : List β} :
    l.mapM f = .ok bs ↔ List.Forall₂ (fun a b => f a = .ok b) l bs := by
  induction l generalizing bs with
  | nil =>
    rw [List.mapM_nil, List.forall₂_nil_left_iff]
    exact ⟨fun h => by cases h; rfl, fun h => by rw [h]; rfl⟩
  | cons a l ih =>
    rw [List.mapM_cons]
    constructor
    · intro h
      cases ha : f a with
      | error e => rw [ha] at h; cases h
      | ok b =>
        rw [ha] at h
        cases hl : l.mapM f with
        | error e => rw [hl] at h; cases h
        | ok bs' =>
          rw [hl] at h
          cases h
          exact List.Forall₂.cons ha (ih.1 hl)
    · intro h
      cases h with
      | cons ha hl =>
        rw [ha, ih.2 hl]
        rfl

/-- What a list was mapped to comes from elements of the list. -/
theorem exists_of_mapM_ok {f : α → Except ε β} {l : List α} {bs : List β} (h : l.mapM f = .ok bs) {b : β} (hb : b ∈ bs) :
    ∃ a ∈ l, f a = .ok b := by
  induction mapM_ok_iff.1 h with
  | nil => cases hb
  | @cons a b' l bs ha hl ih =>
    rcases List.mem_cons.1 hb with rfl | hb
    · exact ⟨a, List.mem_cons_self, ha⟩
    · obtain ⟨a', ha', hab⟩ := ih (mapM_ok_iff.2 hl) hb
      exact ⟨a', List.mem_cons_of_mem _ ha', hab⟩

namespace Prog

/-- One program after another: the second starts on the answer of the first; an error ends both. -/
def bind : Prog E R ε α → (α → Prog E R ε β) → Prog E R ε β
  | ret a, f => f a
  | fail e, _ => fail e
  | call e k, f => call e fun r => (k r).bind f

instance : Monad (Prog E R ε) where
  pure := ret
  bind := bind

/-- The program of one call. -/
def perform (e : E) : Prog E R ε (R e) := call e ret

/-- A computation that makes no call. -/
def ofExcept : Except ε α → Prog E R ε α
  | .ok a => ret a
  | .error e => fail e

@[simp] theorem pure_eq (a : α) : (pure a : Prog E R ε α) = ret a := rfl

@[simp] theorem ret_bind (a : α) (f : α → Prog E R ε β) : (ret a >>= f) = f a := rfl

@[simp] theorem fail_bind (e : ε) (f : α → Prog E R ε β) : ((fail e : Prog E R ε α) >>= f) = fail e := rfl

@[simp] theorem call_bind (e : E) (k : R e → Prog E R ε α) (f : α → Prog E R ε β) :
    (call e k >>= f) = call e fun r => k r >>= f := rfl

@[simp] theorem perform_bind (e : E) (f : R e → Prog E R ε β) : (perform e >>= f) = call e f := rfl

/-- Three programs in a row. -/
theorem bind_assoc (p : Prog E R ε α) (f : α → Prog E R ε β) (g : β → Prog E R ε γ) :
    ((p >>= f) >>= g) = p >>= fun a => f a >>= g := by
  induction p with
  | ret a => rfl
  | fail e => rfl
  | call e k ih =>
    simp only [call_bind, call.injEq, heq_eq_eq, true_and]
    funext r
    exact ih r

theorem bind_ret (p : Prog E R ε α) : p >>= ret = p := by
  induction p with
  | ret a => rfl
  | fail e => rfl
  | call e k ih =>
    rw [call_bind]
    congr 1
    funext r
    exact ih r

/-! ## A program run alone -/

/-- The program run to its end with no other step in between: its outcome and the state it leaves. -/
def run (H : Service E R σ) : Prog E R ε α → σ → Except ε α × σ
  | ret a, s => (.ok a, s)
  | fail e, s => (.error e, s)
  | call e k, s => run H (k (H e s).1) (H e s).2

/-- The state after the program's first `n` calls, or after all of them when it makes fewer. -/
def runFor (H : Service E R σ) : Nat → Prog E R ε α → σ → σ
  | n + 1, call e k, s => runFor H n (k (H e s).1) (H e s).2
  | _, _, s => s

@[simp] theorem run_ret (H : Service E R σ) (a : α) (s : σ) : (ret a : Prog E R ε α).run H s = (.ok a, s) := rfl

@[simp] theorem run_fail (H : Service E R σ) (e : ε) (s : σ) : (fail e : Prog E R ε α).run H s = (.error e, s) := rfl

@[simp] theorem run_call (H : Service E R σ) (e : E) (k : R e → Prog E R ε α) (s : σ) :
    (call e k).run H s = (k (H e s).1).run H (H e s).2 := rfl

@[simp] theorem runFor_ret (H : Service E R σ) (n : Nat) (a : α) (s : σ) :
    (ret a : Prog E R ε α).runFor H n s = s := by
  cases n <;> rfl

@[simp] theorem runFor_zero (H : Service E R σ) (p : Prog E R ε α) (s : σ) : p.runFor H 0 s = s := by
  cases p <;> rfl

@[simp] theorem runFor_call_succ (H : Service E R σ) (n : Nat) (e : E) (k : R e → Prog E R ε α) (s : σ) :
    (call e k).runFor H (n + 1) s = (k (H e s).1).runFor H n (H e s).2 := rfl

/-- Two programs in sequence run as the first, then the second on its answer and its state. -/
theorem run_bind (H : Service E R σ) (p : Prog E R ε α) (f : α → Prog E R ε β) (s : σ) :
    (p >>= f).run H s =
      match p.run H s with
      | (.ok a, s') => (f a).run H s'
      | (.error e, s') => (.error e, s') := by
  induction p generalizing s with
  | ret a => rfl
  | fail e => rfl
  | call e k ih =>
    simp only [call_bind, run_call]
    exact ih _ _

/-- The rule of sequencing, for a first program known to complete. -/
theorem run_bind_of_ok {H : Service E R σ} {p : Prog E R ε α} {f : α → Prog E R ε β} {s s' : σ} {a : α}
    (h : p.run H s = (.ok a, s')) : (p >>= f).run H s = (f a).run H s' := by
  rw [run_bind, h]

/-- A sequence that completes is made of two programs that complete. -/
theorem run_bind_ok {H : Service E R σ} {p : Prog E R ε α} {f : α → Prog E R ε β} {s s'' : σ} {b : β}
    (h : (p >>= f).run H s = (.ok b, s'')) : ∃ a s', p.run H s = (.ok a, s') ∧ (f a).run H s' = (.ok b, s'') := by
  rw [run_bind] at h
  split at h
  · rename_i a s' hp
    exact ⟨a, s', hp, h⟩
  · cases h

/-- A sequence that ended with an error ended so in its first program, or in the second after a complete first. -/
theorem run_bind_error {H : Service E R σ} {p : Prog E R ε α} {f : α → Prog E R ε β} {s s'' : σ} {e : ε}
    (h : (p >>= f).run H s = (.error e, s'')) :
    p.run H s = (.error e, s'') ∨ ∃ a s', p.run H s = (.ok a, s') ∧ (f a).run H s' = (.error e, s'') := by
  rw [run_bind] at h
  split at h
  · rename_i a s' hp
    exact Or.inr ⟨a, s', hp, h⟩
  · rename_i e' s' hp
    cases h
    exact Or.inl hp

/-- A computation without calls that ended with an error leaves the state alone. -/
theorem run_ofExcept_error {H : Service E R σ} {x : Except ε α} {s s' : σ} {e : ε}
    (h : (ofExcept x : Prog E R ε α).run H s = (.error e, s')) : x = .error e ∧ s' = s := by
  cases x with
  | ok b => cases h
  | error e' => cases h; exact ⟨rfl, rfl⟩

/-- A computation without calls that ended well completes and leaves the state alone. -/
theorem run_ofExcept_ok {H : Service E R σ} {x : Except ε α} {s s' : σ} {a : α}
    (h : (ofExcept x : Prog E R ε α).run H s = (.ok a, s')) : x = .ok a ∧ s' = s := by
  cases x with
  | ok b => cases h; exact ⟨rfl, rfl⟩
  | error e => cases h

/-! ## What a program can call -/

/-- Every call the program can ever make, whatever replies it is given, satisfies `P`. -/
def Makes (P : E → Prop) : Prog E R ε α → Prop
  | ret _ => True
  | fail _ => True
  | call e k => P e ∧ ∀ r, (k r).Makes P

@[simp] theorem makes_ret (P : E → Prop) (a : α) : (ret a : Prog E R ε α).Makes P := trivial

@[simp] theorem makes_fail (P : E → Prop) (e : ε) : (fail e : Prog E R ε α).Makes P := trivial

@[simp] theorem makes_call (P : E → Prop) (e : E) (k : R e → Prog E R ε α) :
    (call e k).Makes P ↔ P e ∧ ∀ r, (k r).Makes P := Iff.rfl

/-- Two programs in a row make the calls of both. -/
theorem Makes.bind {P : E → Prop} {p : Prog E R ε α} {f : α → Prog E R ε β} (hp : p.Makes P)
    (hf : ∀ a, (f a).Makes P) : (p >>= f).Makes P := by
  induction p with
  | ret a => exact hf a
  | fail e => trivial
  | call e k ih => exact ⟨hp.1, fun r => ih r (hp.2 r)⟩

/-- The calls that a program makes may be described more weakly. -/
theorem Makes.mono {P Q : E → Prop} {p : Prog E R ε α} (h : p.Makes P) (hPQ : ∀ e, P e → Q e) : p.Makes Q := by
  induction p with
  | ret a => trivial
  | fail e => trivial
  | call e k ih => exact ⟨hPQ e h.1, fun r => ih r (h.2 r)⟩

/-- A computation without calls, and a program on what it gives. -/
theorem makes_ofExcept_bind {P : E → Prop} {x : Except ε α} {f : α → Prog E R ε β} (h : ∀ a, x = .ok a → (f a).Makes P) :
    ((ofExcept x : Prog E R ε α) >>= f).Makes P := by
  cases x with
  | ok a => exact h a rfl
  | error e => trivial

/-- A loop makes the calls of its rounds. -/
theorem makes_forM {ι : Type} {P : E → Prop} {f : ι → Prog E R ε PUnit} :
    ∀ l : List ι, (∀ i ∈ l, (f i).Makes P) → (l.forM f).Makes P := by
  intro l
  induction l with
  | nil => intro _; trivial
  | cons i l ih =>
    intro h
    exact (h i (by simp)).bind fun _ => ih fun j hj => h j (by simp [hj])

/-- What comes after a loop may use what each turn of it has made sure of. -/
theorem makes_forM_bind {ι : Type} {P : E → Prop} {C : ι → Prop} {f : ι → Prog E R ε PUnit} {g : PUnit → Prog E R ε β}
    {l : List ι} (hf : ∀ i ∈ l, ∀ rest : Prog E R ε β, (C i → rest.Makes P) → (f i >>= fun _ => rest).Makes P)
    (hg : (∀ i ∈ l, C i) → (g ()).Makes P) : (l.forM f >>= g).Makes P := by
  induction l with
  | nil => exact hg nofun
  | cons i l ih =>
    show ((f i >>= fun _ => l.forM f) >>= g).Makes P
    rw [bind_assoc]
    refine hf i List.mem_cons_self _ fun hi => ih (fun j hj => hf j (List.mem_cons_of_mem i hj)) fun hl => hg fun j hj => ?_
    rcases List.mem_cons.1 hj with rfl | hj
    · exact hi
    · exact hl j hj

/-- The program stops with no error, whatever replies it is given. -/
def NeverFails : Prog E R ε α → Prop
  | ret _ => True
  | fail _ => False
  | call _ k => ∀ r, (k r).NeverFails

/-- Two programs in a row that never fail never do. -/
theorem NeverFails.bind {p : Prog E R ε α} {f : α → Prog E R ε β} (hp : p.NeverFails) (hf : ∀ a, (f a).NeverFails) :
    (p >>= f).NeverFails := by
  induction p with
  | ret a => exact hf a
  | fail e => exact hp.elim
  | call e k ih => exact fun r => ih r (hp r)

/-- A loop never fails whose rounds never do. -/
theorem neverFails_forM {ι : Type} {f : ι → Prog E R ε PUnit} (h : ∀ i, (f i).NeverFails) (l : List ι) :
    (l.forM f).NeverFails := by
  induction l with
  | nil => trivial
  | cons i l ih => exact (h i).bind fun _ => ih

/-- A program that never fails ends with a value. -/
theorem NeverFails.run_ok {p : Prog E R ε α} (hp : p.NeverFails) (H : Service E R σ) (s : σ) :
    ∃ a s', p.run H s = (.ok a, s') := by
  induction p generalizing s with
  | ret a => exact ⟨a, s, rfl⟩
  | fail e => exact hp.elim
  | call e k ih => exact ih _ (hp _) _

/-- The rule of invariants for a program run alone: what every call it makes keeps, the program keeps. -/
theorem run_invariant {H : Service E R σ} {P : E → Prop} {I : σ → Prop} (hI : ∀ e s, P e → I s → I (H e s).2)
    (p : Prog E R ε α) (hp : p.Makes P) (s : σ) (hs : I s) : I (p.run H s).2 := by
  induction p generalizing s with
  | ret a => exact hs
  | fail e => exact hs
  | call e k ih => exact ih _ (hp.2 _) _ (hI e s hp.1 hs)

/-- A program run alone makes a call at a state. -/
def Visits (H : Service E R σ) : Prog E R ε α → σ → E → σ → Prop
  | call e k, s, e', s' => (e' = e ∧ s' = s) ∨ (k (H e s).1).Visits H (H e s).2 e' s'
  | _, _, _, _ => False

/-- A call of two programs in sequence is one of the first, or one of the second after a complete first. -/
theorem Visits.bind_cases {H : Service E R σ} {p : Prog E R ε α} {f : α → Prog E R ε β} {s s' : σ} {e : E}
    (h : (p >>= f).Visits H s e s') : p.Visits H s e s' ∨ ∃ a s₁, p.run H s = (.ok a, s₁) ∧ (f a).Visits H s₁ e s' := by
  induction p generalizing s with
  | ret a => exact Or.inr ⟨a, s, rfl, h⟩
  | fail e => exact h.elim
  | call e k ih =>
    rcases h with h | h
    · exact Or.inl (Or.inl h)
    · rcases ih _ h with h | h
      · exact Or.inl (Or.inr h)
      · exact Or.inr h

/-- A program run alone makes no calls but those it can make. -/
theorem Visits.makes {H : Service E R σ} {P : E → Prop} {p : Prog E R ε α} {s s' : σ} {e : E} (h : p.Visits H s e s')
    (hp : p.Makes P) : P e := by
  induction p generalizing s with
  | ret a => exact h.elim
  | fail e => exact h.elim
  | call e k ih =>
    rcases h with ⟨rfl, -⟩ | h
    · exact hp.1
    · exact ih _ h (hp.2 _)

/-! ## A program cut after some of its calls -/

/-- A call that was made: the state the service was in, the call, and the reply. -/
structure Event (E : Type) (R : E → Type) (σ : Type) where
  state : σ
  call : E
  reply : R call

/-- `After p es q`: having made the calls of `es` with their replies, `p` has `q` left to do. -/
inductive After (p : Prog E R ε α) : List (Event E R σ) → Prog E R ε α → Prop
  | nil : After p [] p
  | snoc {es : List (Event E R σ)} (ev : Event E R σ) {k : R ev.call → Prog E R ε α} :
      After p es (call ev.call k) → After p (es ++ [ev]) (k ev.reply)

/-- A sequence that was cut was cut in its first program, or in the second after a complete first. -/
theorem After.bind_cases {p : Prog E R ε α} {f : α → Prog E R ε β} {es : List (Event E R σ)} {q : Prog E R ε β}
    (h : After (p >>= f) es q) :
    (∃ p', After p es p' ∧ q = (p' >>= f)) ∨
      ∃ a es₁ es₂, es = es₁ ++ es₂ ∧ After p es₁ (ret a) ∧ After (f a) es₂ q := by
  induction h with
  | nil => exact Or.inl ⟨p, After.nil, rfl⟩
  | @snoc es ev k hk ih =>
    rcases ih with ⟨p', hp', hq⟩ | ⟨a, es₁, es₂, rfl, h₁, h₂⟩
    · cases p' with
      | ret a =>
        rw [ret_bind] at hq
        exact Or.inr ⟨a, es, [ev], rfl, hp', @After.snoc _ _ _ _ _ _ [] ev k (hq ▸ After.nil)⟩
      | fail e => cases hq
      | call e k' =>
        rw [call_bind] at hq
        injection hq with he hk'
        subst he
        cases hk'
        exact Or.inl ⟨k' ev.reply, After.snoc ev hp', rfl⟩
    · exact Or.inr ⟨a, es₁, es₂ ++ [ev], by rw [List.append_assoc], h₁, After.snoc ev h₂⟩

/-- A program that has ended makes no more calls. -/
theorem After.of_ret {a : α} {es : List (Event E R σ)} {q : Prog E R ε α} (h : After (ret a) es q) :
    es = [] ∧ q = ret a := by
  induction h with
  | nil => exact ⟨rfl, rfl⟩
  | snoc ev _ ih =>
    obtain ⟨-, h⟩ := ih
    cases h

/-- Nor does one that has failed. -/
theorem After.of_fail {e : ε} {es : List (Event E R σ)} {q : Prog E R ε α} (h : After (fail e) es q) :
    es = [] ∧ q = fail e := by
  induction h with
  | nil => exact ⟨rfl, rfl⟩
  | snoc ev _ ih =>
    obtain ⟨-, h⟩ := ih
    cases h

/-- A program that starts with a call has made no call yet, or has made that one first. -/
theorem After.of_call {e : E} {k : R e → Prog E R ε α} {es : List (Event E R σ)} {q : Prog E R ε α}
    (h : After (call e k) es q) :
    (es = [] ∧ q = call e k) ∨ ∃ s r es', es = ⟨s, e, r⟩ :: es' ∧ After (k r) es' q := by
  induction h with
  | nil => exact Or.inl ⟨rfl, rfl⟩
  | snoc ev _ ih =>
    rcases ih with ⟨rfl, hc⟩ | ⟨s, r, es', rfl, h'⟩
    · injection hc with he hk
      obtain ⟨s, e', r⟩ := ev
      subst he
      cases hk
      exact Or.inr ⟨s, r, [], rfl, After.nil⟩
    · exact Or.inr ⟨s, r, es' ++ [ev], rfl, After.snoc ev h'⟩

/-- A sequence that came to its answer is made of two programs that did. -/
theorem After.bind_ret {p : Prog E R ε α} {f : α → Prog E R ε β} {es : List (Event E R σ)} {b : β}
    (h : After (p >>= f) es (ret b)) : ∃ a es₁ es₂, es = es₁ ++ es₂ ∧ After p es₁ (ret a) ∧ After (f a) es₂ (ret b) := by
  rcases h.bind_cases with ⟨p', hp', hq⟩ | h
  · cases p' with
    | ret a =>
      rw [ret_bind] at hq
      exact ⟨a, es, [], (List.append_nil es).symm, hp', hq ▸ After.nil⟩
    | fail e => cases hq
    | call e k => cases hq
  · exact h

/-- A loop that came to its end came to the end of its body for every element. -/
theorem After.forM_ret {ι : Type} {f : ι → Prog E R ε PUnit} {l : List ι} {es : List (Event E R σ)} {u : PUnit}
    (h : After (l.forM f) es (ret u)) {i : ι} (hi : i ∈ l) : ∃ es' ⊆ es, ∃ u, After (f i) es' (ret u) := by
  induction l generalizing es with
  | nil => cases hi
  | cons j l ih =>
    obtain ⟨u', es₁, es₂, rfl, h₁, h₂⟩ := After.bind_ret h
    rcases List.mem_cons.1 hi with rfl | hi
    · exact ⟨es₁, List.subset_append_left _ _, u', h₁⟩
    · obtain ⟨es', hsub, hes'⟩ := ih h₂ hi
      exact ⟨es', fun ev hev => List.mem_append_right _ (hsub hev), hes'⟩

/-- A computation without calls before a program that came to its answer ended well. -/
theorem After.ofExcept_bind_ret {x : Except ε α} {f : α → Prog E R ε β} {es : List (Event E R σ)} {b : β}
    (h : After ((ofExcept x : Prog E R ε α) >>= f) es (ret b)) : ∃ a, x = .ok a ∧ After (f a) es (ret b) := by
  cases x with
  | ok a => exact ⟨a, rfl, h⟩
  | error e =>
    obtain ⟨-, h⟩ := After.of_fail h
    cases h

/-- A cut program made only calls it can make, and its rest can make no others. -/
theorem After.makes {P : E → Prop} {p : Prog E R ε α} {es : List (Event E R σ)} {q : Prog E R ε α}
    (h : After p es q) (hp : p.Makes P) : (∀ ev ∈ es, P ev.call) ∧ q.Makes P := by
  induction h with
  | nil => exact ⟨by simp, hp⟩
  | snoc ev _ ih =>
    refine ⟨fun ev' hev' => ?_, ih.2.2 _⟩
    rcases List.mem_append.1 hev' with h' | h'
    · exact ih.1 ev' h'
    · rw [List.mem_singleton.1 h']; exact ih.2.1

end Prog

end Interleave
