import Mathlib.Order.Bounds.Basic
import Mathlib.Data.List.Perm.Basic
import Mathlib.Data.List.Induction

/-!
# A running minimum with the least value for nothing

A fold that keeps the least value so far and starts from the least value of all, which stands for "nothing yet". Where that
value comes up itself, what came before it is forgotten. So the fold gives the minimum exactly when the value does not come
up, or is the last one (`isLeast_iff`); and it is the same in every order exactly when the value does not come up, or nothing
else does (`least_stable_iff`).
-/

namespace RunningMin

variable {τ : Type} [LinearOrder τ] [OrderBot τ]

/-- One more value. -/
def observe (m t : τ) : τ := if m = ⊥ ∨ t < m then t else m

/-- The running minimum after all values. -/
def least (ts : List τ) : τ := ts.foldl observe ⊥

@[simp] theorem least_nil : least ([] : List τ) = ⊥ := rfl

@[simp] theorem least_concat (ts : List τ) (t : τ) : least (ts ++ [t]) = observe (least ts) t := by
  rw [least, List.foldl_append]
  rfl

/-- The least value forgets those before it. -/
theorem observe_bot (m : τ) : observe m ⊥ = ⊥ := by
  unfold observe
  split
  · rfl
  · rename_i h
    exact absurd (bot_lt_iff_ne_bot.2 fun hm => h (Or.inl hm)) fun hlt => h (Or.inr hlt)

/-- The running minimum is the least value only after it, or after nothing. -/
theorem observe_eq_bot {m t : τ} (h : observe m t = ⊥) : t = ⊥ := by
  unfold observe at h
  split at h
  · exact h
  · rename_i hm
    exact absurd (Or.inl h) hm

/-- Without the least value the fold is the minimum. -/
theorem isLeast_of_notMem {ts : List τ} (h : ⊥ ∉ ts) (hne : ts ≠ []) : IsLeast {t | t ∈ ts} (least ts) := by
  induction ts using List.reverseRecOn with
  | nil => exact absurd rfl hne
  | append_singleton ts t ih =>
    rw [least_concat]
    rcases List.eq_nil_or_concat ts with rfl | ⟨us, u, hts⟩
    · simp [observe, IsLeast, lowerBounds]
    · have hne' : ts ≠ [] := by simp [hts]
      obtain ⟨hmem, hle⟩ := ih (fun hbot => h (List.mem_append_left _ hbot)) hne'
      have hpos : least ts ≠ ⊥ := fun hbot => h (List.mem_append_left _ (hbot ▸ hmem))
      unfold observe
      split
      · rename_i hlt
        have hlt := hlt.resolve_left hpos
        refine ⟨by simp, fun u hu => ?_⟩
        rcases List.mem_append.1 hu with hu | hu
        · exact hlt.le.trans (hle hu)
        · rw [List.mem_singleton.1 hu]
      · rename_i hge
        refine ⟨List.mem_append_left _ hmem, fun u hu => ?_⟩
        rcases List.mem_append.1 hu with hu | hu
        · exact hle hu
        · rw [List.mem_singleton.1 hu]
          exact not_lt.1 fun hlt => hge (Or.inr hlt)

/-- The fold is the minimum exactly when the least value does not come up or is the last one. -/
theorem isLeast_iff {ts : List τ} (hne : ts ≠ []) : IsLeast {t | t ∈ ts} (least ts) ↔ ⊥ ∉ ts ∨ ts.getLast? = some ⊥ := by
  constructor
  · intro h
    refine or_iff_not_imp_left.2 fun hmem => ?_
    have hbot : least ts = ⊥ := le_bot_iff.1 (h.2 (not_not.1 hmem))
    obtain ⟨us, t, rfl⟩ := (List.eq_nil_or_concat ts).resolve_left hne
    rw [List.concat_eq_append, least_concat] at hbot
    rw [List.concat_eq_append, List.getLast?_concat, observe_eq_bot hbot]
  · rintro (hnot | hlast)
    · exact isLeast_of_notMem hnot hne
    · obtain ⟨us, t, rfl⟩ := (List.eq_nil_or_concat ts).resolve_left hne
      rw [List.concat_eq_append, List.getLast?_concat, Option.some.injEq] at hlast
      rw [hlast, List.concat_eq_append, least_concat, observe_bot]
      exact ⟨by simp, fun _ _ => bot_le⟩

/-- Two lists one after the other, each in any order: the fold is the minimum in all orders exactly when the least value does not
come up, or nothing else does in the second list, or in the first one where the second is empty. -/
theorem isLeast_perm_append_iff {as bs : List τ} (hne : as ++ bs ≠ []) :
    (∀ as' bs', as'.Perm as → bs'.Perm bs → IsLeast {t | t ∈ as' ++ bs'} (least (as' ++ bs'))) ↔
      ⊥ ∉ as ++ bs ∨ ∀ t ∈ if bs = [] then as else bs, t = ⊥ := by
  have hperm : ∀ {as' bs' : List τ}, as'.Perm as → bs'.Perm bs → as' ++ bs' ≠ [] := fun has hbs hnil =>
    hne (List.Perm.eq_nil (hnil ▸ (has.append hbs).symm))
  constructor
  · intro h
    refine or_iff_not_imp_left.2 fun hmem t ht => ?_
    obtain ⟨as', bs', has, hbs, hlast⟩ : ∃ as' bs' : List τ, as'.Perm as ∧ bs'.Perm bs ∧ (as' ++ bs').getLast? = some t := by
      classical
      by_cases hnil : bs = []
      · rw [if_pos hnil] at ht
        refine ⟨as.erase t ++ [t], [], ?_, by rw [hnil], by simp⟩
        exact (List.perm_append_singleton t _).trans (List.perm_cons_erase ht).symm
      · rw [if_neg hnil] at ht
        refine ⟨as, bs.erase t ++ [t], List.Perm.refl _, ?_, by simp [← List.append_assoc]⟩
        exact (List.perm_append_singleton t _).trans (List.perm_cons_erase ht).symm
    have hmem' : ⊥ ∈ as' ++ bs' := (has.append hbs).mem_iff.2 (not_not.1 hmem)
    have hbot := ((isLeast_iff (hperm has hbs)).1 (h as' bs' has hbs)).resolve_left (not_not.2 hmem')
    rw [hlast] at hbot
    exact Option.some.inj hbot
  · intro h as' bs' has hbs
    refine (isLeast_iff (hperm has hbs)).2 (h.imp (fun hnot hmem => hnot ((has.append hbs).mem_iff.1 hmem)) fun hall => ?_)
    by_cases hnil : bs = []
    · rw [hnil] at hbs hall hne
      rw [hbs.eq_nil, List.append_nil]
      obtain ⟨us, u, rfl⟩ := (List.eq_nil_or_concat as').resolve_left fun hnil' => hne (by
        rw [hnil'] at has
        rw [has.symm.eq_nil]
        rfl)
      rw [List.concat_eq_append, List.getLast?_concat, hall u (has.mem_iff.1 (by simp))]
    · rw [if_neg hnil] at hall
      obtain ⟨us, u, rfl⟩ := (List.eq_nil_or_concat bs').resolve_left fun hnil' => hnil (by
        rw [hnil'] at hbs
        exact hbs.symm.eq_nil)
      rw [List.concat_eq_append, ← List.append_assoc, List.getLast?_concat, hall u (hbs.mem_iff.1 (by simp))]

/-- The fold is the minimum, and the same in all orders, under the same condition; of no values it is always the same. -/
theorem least_stable_iff (as bs : List τ) :
    ((as ++ bs ≠ [] → IsLeast {t | t ∈ as ++ bs} (least (as ++ bs))) ∧
        ∀ as' bs', as'.Perm as → bs'.Perm bs → least (as' ++ bs') = least (as ++ bs)) ↔
      ⊥ ∉ as ++ bs ∨ ∀ t ∈ if bs = [] then as else bs, t = ⊥ := by
  by_cases hnil : as ++ bs = []
  · obtain ⟨rfl, rfl⟩ := List.append_eq_nil_iff.1 hnil
    refine iff_of_true ⟨fun hne => absurd rfl hne, fun as' bs' has hbs => ?_⟩ (Or.inl List.not_mem_nil)
    rw [has.eq_nil, hbs.eq_nil]
  have hsame : ∀ {as' bs' : List τ}, as'.Perm as → bs'.Perm bs → {t | t ∈ as' ++ bs'} = {t | t ∈ as ++ bs} := fun has hbs =>
    Set.ext fun t => (has.append hbs).mem_iff
  rw [← isLeast_perm_append_iff hnil]
  constructor
  · rintro ⟨hleast, hstable⟩ as' bs' has hbs
    rw [hsame has hbs, hstable as' bs' has hbs]
    exact hleast hnil
  · intro h
    have hleast := h as bs (List.Perm.refl _) (List.Perm.refl _)
    refine ⟨fun _ => hleast, fun as' bs' has hbs => ?_⟩
    have hleast' := h as' bs' has hbs
    rw [hsame has hbs] at hleast'
    exact hleast'.unique hleast

end RunningMin
