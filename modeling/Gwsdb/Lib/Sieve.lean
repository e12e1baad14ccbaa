import Mathlib.Data.List.Basic
import Mathlib.Tactic

/-!
# Sifting a list

The elements of a list that pass a test on the elements before them, in their order: the result of a loop that
decides on each element with what it remembers of the earlier ones. Sifting for elements that are the first with
their key leaves one for each key.
-/

namespace Sieve

variable {α κ : Type}

/-- The elements that pass a test on those before them. -/
def sift (p : List α → α → Bool) (l : List α) : List α := (l.zipIdx.filter fun e => p (l.take e.2) e.1).map Prod.fst

@[simp] theorem sift_nil (p : List α → α → Bool) : sift p [] = [] := rfl

/-- One more element is kept if it passes the test on the list before it. -/
theorem sift_concat (p : List α → α → Bool) (l : List α) (x : α) : sift p (l ++ [x]) = sift p l ++ if p l x then [x] else [] := by
  have hbefore : l.zipIdx.filter (fun e => p ((l ++ [x]).take e.2) e.1) = l.zipIdx.filter fun e => p (l.take e.2) e.1 := by
    refine List.filter_congr fun e he => ?_
    have hlt := (List.mem_zipIdx he).2.1
    rw [List.take_append_of_le_length (by omega)]
  unfold sift
  rw [List.zipIdx_append, List.filter_append, List.map_append, hbefore]
  by_cases hp : p l x = true <;> simp [hp]

/-- Tests that agree wherever the list is cut keep the same elements. -/
theorem sift_congr {p q : List α → α → Bool} {l : List α} (h : ∀ before x, x ∈ l → p before x = q before x) :
    sift p l = sift q l := by
  induction l using List.reverseRecOn with
  | nil => rfl
  | append_singleton l x ih =>
    rw [sift_concat, sift_concat, ih fun before y hy => h before y (List.mem_append_left _ hy), h l x (by simp)]

theorem filter_sift (p : List α → α → Bool) (q : α → Bool) (l : List α) :
    (sift p l).filter q = sift (fun before x => p before x && q x) l := by
  induction l using List.reverseRecOn with
  | nil => rfl
  | append_singleton l x ih =>
    rw [sift_concat, sift_concat, List.filter_append, ih]
    cases hp : p l x <;> cases hq : q x <;> simp [hq]

/-- The elements kept are those that pass the test where they stand. -/
theorem mem_sift {p : List α → α → Bool} {l : List α} {x : α} :
    x ∈ sift p l ↔ ∃ before after, l = before ++ x :: after ∧ p before x = true := by
  induction l using List.reverseRecOn with
  | nil => simp
  | append_singleton l y ih =>
    rw [sift_concat, List.mem_append, ih]
    constructor
    · rintro (⟨before, after, rfl, hp⟩ | hm)
      · exact ⟨before, after ++ [y], by simp, hp⟩
      · split at hm
        · rw [List.mem_singleton.1 hm]
          exact ⟨l, [], rfl, ‹_›⟩
        · cases hm
    · rintro ⟨before, after, heq, hp⟩
      rcases List.eq_nil_or_concat after with rfl | ⟨after, z, rfl⟩
      · obtain ⟨rfl, hy⟩ := List.append_inj' heq rfl
        cases hy
        exact Or.inr (by rw [if_pos hp]; exact List.mem_singleton_self _)
      · rw [List.concat_eq_append, ← List.cons_append, ← List.append_assoc] at heq
        exact Or.inl ⟨before, after, (List.append_inj' heq rfl).1, hp⟩

theorem mem_of_mem_sift {p : List α → α → Bool} {l : List α} {x : α} (h : x ∈ sift p l) : x ∈ l := by
  obtain ⟨before, after, rfl, -⟩ := mem_sift.1 h
  simp

variable [DecidableEq κ]

/-- Whether an element with a property is the first one with its key. -/
def first (q : α → Bool) (key : α → κ) (before : List α) (x : α) : Bool := q x && before.all fun y => !(q y && key y = key x)

theorem first_iff {q : α → Bool} {key : α → κ} {before : List α} {x : α} :
    first q key before x = true ↔ q x = true ∧ ¬∃ y ∈ before, q y = true ∧ key y = key x := by
  simp only [first, Bool.and_eq_true, List.all_eq_true, not_exists, not_and]
  refine and_congr_right fun _ => forall₂_congr fun y _ => ?_
  cases q y <;> simp

/-- First elements with their keys are different. -/
theorem nodup_sift_first (q : α → Bool) (key : α → κ) (l : List α) : (sift (first q key) l).Nodup := by
  induction l using List.reverseRecOn with
  | nil => exact List.nodup_nil
  | append_singleton l x ih =>
    rw [sift_concat]
    split
    · rename_i hfirst
      refine List.nodup_append.2 ⟨ih, List.nodup_singleton x, ?_⟩
      rintro y hy _ hx rfl
      rw [List.mem_singleton] at hx
      subst hx
      obtain ⟨hq, hnone⟩ := first_iff.1 hfirst
      exact hnone ⟨y, mem_of_mem_sift hy, hq, rfl⟩
    · rw [List.append_nil]
      exact ih

/-- Of the elements with a property, those that are the first with their key are one for each key. -/
theorem length_filter_first (q : α → Bool) (key : α → κ) (l : List α) (k : κ) :
    ((sift (first q key) l).filter fun x => key x = k).length = if ∃ x ∈ l, q x = true ∧ key x = k then 1 else 0 := by
  induction l using List.reverseRecOn with
  | nil => simp
  | append_singleton l x ih =>
    have hone : (∃ y ∈ l ++ [x], q y = true ∧ key y = k) ↔ (∃ y ∈ l, q y = true ∧ key y = k) ∨ (q x = true ∧ key x = k) := by
      simp only [List.mem_append, List.mem_singleton, or_and_right, exists_or, exists_eq_left]
    rw [sift_concat, List.filter_append, List.length_append, ih, if_congr hone rfl rfl]
    by_cases hx : q x = true ∧ key x = k
    · obtain ⟨hq, rfl⟩ := hx
      by_cases hearlier : ∃ y ∈ l, q y = true ∧ key y = key x
      · rw [if_pos hearlier, if_pos (Or.inl hearlier), if_neg fun h => (first_iff.1 h).2 hearlier]
        rfl
      · rw [if_neg hearlier, if_pos (Or.inr ⟨hq, rfl⟩), if_pos (first_iff.2 ⟨hq, hearlier⟩)]
        simp
    · have hnone : (if first q key l x = true then [x] else []).filter (fun x => key x = k) = [] := by
        split
        · rename_i h
          exact List.filter_eq_nil_iff.2 fun y hy => by
            rw [List.mem_singleton.1 hy, decide_eq_true_eq]
            exact fun hk => hx ⟨(first_iff.1 h).1, hk⟩
        · rfl
      rw [hnone]
      simp only [hx, or_false, List.length_nil, Nat.add_zero]

/-- Each key of an element with a property has a first one. -/
theorem exists_mem_sift_first {q : α → Bool} {key : α → κ} {l : List α} {x : α} (hx : x ∈ l) (hq : q x = true) :
    ∃ y ∈ sift (first q key) l, key y = key x := by
  have hone := length_filter_first q key l (key x)
  rw [if_pos ⟨x, hx, hq, rfl⟩] at hone
  obtain ⟨y, hy⟩ := List.exists_mem_of_length_pos (hone ▸ Nat.one_pos)
  rw [List.mem_filter, decide_eq_true_eq] at hy
  exact ⟨y, hy⟩

/-- A sieve for first elements, of a list that has lost whole keys. -/
theorem sift_first_filter {q : α → Bool} {key : α → κ} {g : α → Bool} (hg : ∀ x y, key x = key y → g x = g y) (l : List α) :
    sift (first q key) (l.filter g) = (sift (first q key) l).filter g := by
  induction l using List.reverseRecOn with
  | nil => rfl
  | append_singleton l x ih =>
    rw [List.filter_append, sift_concat, List.filter_append, ← ih]
    cases hx : g x with
    | false =>
      have hnone : (if first q key l x = true then [x] else []).filter g = [] := by
        split <;> simp [hx]
      rw [hnone, List.filter_cons_of_neg (by simp [hx]), List.filter_nil, List.append_nil, List.append_nil]
    | true =>
      have hfirst : first q key (l.filter g) x = first q key l x := by
        rw [Bool.eq_iff_iff, first_iff, first_iff]
        refine and_congr_right fun _ => not_congr (exists_congr fun y => ?_)
        rw [List.mem_filter, and_assoc]
        exact and_congr_right fun _ => ⟨And.right, fun hy => ⟨(hg y x hy.2).trans hx, hy⟩⟩
      rw [List.filter_cons_of_pos (by simpa using hx), List.filter_nil, sift_concat, hfirst]
      split <;> simp [hx]

/-- What more elements add to a sieve for first elements: the first ones of keys that are not there. -/
theorem sift_first_append (q : α → Bool) (key : α → κ) (l₁ l₂ : List α) :
    sift (first q key) (l₁ ++ l₂) = sift (first q key) l₁ ++
      (sift (first q key) l₂).filter fun x => !l₁.any fun y => q y && decide (key y = key x) := by
  induction l₂ using List.reverseRecOn with
  | nil => simp
  | append_singleton l₂ x ih =>
    have hfirst : first q key (l₁ ++ l₂) x = (first q key l₂ x && !l₁.any fun y => q y && decide (key y = key x)) := by
      unfold first
      rw [List.all_append, List.not_any_eq_all_not]
      cases q x <;> simp [Bool.and_comm]
    rw [← List.append_assoc, sift_concat, sift_concat, ih, List.filter_append, ← List.append_assoc, hfirst]
    cases first q key l₂ x <;> simp [List.filter_cons]

/-- Two tests one after the other keep the elements in their order exactly when what only the second keeps stands behind. -/
theorem filter_append_filter_iff {l : List α} (hl : l.Nodup) {p q : α → Bool} :
    (l.filter p ++ l.filter fun x => q x && !p x) = l.filter (fun x => p x || q x) ↔
      l.Pairwise fun y x => p x = true → q y = true → p y = true := by
  induction l with
  | nil => simp
  | cons a l ih =>
    obtain ⟨ha, hl'⟩ := List.nodup_cons.1 hl
    rw [List.pairwise_cons, ← ih hl']
    cases hp : p a with
    | true => simp [hp]
    | false =>
      cases hq : q a with
      | false => simp [hp, hq]
      | true =>
        have hnone : (∀ x ∈ l, p x = true → true = true → false = true) ↔ l.filter p = [] := by
          simp [List.filter_eq_nil_iff]
        rw [hnone, List.filter_cons_of_neg (by simp [hp]), List.filter_cons_of_pos (by simp [hp, hq]),
          List.filter_cons_of_pos (by simp [hq])]
        constructor
        · intro heq
          cases hfirst : l.filter p with
          | nil =>
            rw [hfirst] at heq
            exact ⟨rfl, (List.cons.inj heq).2⟩
          | cons b l' =>
            rw [hfirst] at heq
            have hb : b ∈ l := List.mem_of_mem_filter (hfirst ▸ List.mem_cons_self)
            exact absurd ((List.cons.inj heq).1 ▸ hb) ha
        · rintro ⟨hempty, heq⟩
          rw [hempty] at heq ⊢
          rw [← heq]
          rfl

/-- What two tests one after the other keep is what one keeps, in order, exactly when it keeps what one of them does and what only
the second keeps stands behind. -/
theorem filter_append_filter_eq_iff {l : List α} (hl : l.Nodup) {p q r : α → Bool} :
    (l.filter p ++ l.filter fun x => q x && !p x) = l.filter r ↔
      (∀ x ∈ l, r x = (p x || q x)) ∧ l.Pairwise fun y x => p x = true → q y = true → p y = true := by
  rw [← filter_append_filter_iff hl]
  constructor
  · intro heq
    have hmem : ∀ x ∈ l, r x = (p x || q x) := by
      intro x hx
      have hiff : x ∈ (l.filter p ++ l.filter fun x => q x && !p x) ↔ x ∈ l.filter r := by rw [heq]
      simp only [List.mem_append, List.mem_filter, hx, true_and] at hiff
      rw [Bool.eq_iff_iff, ← hiff]
      cases p x <;> cases q x <;> simp
    exact ⟨hmem, heq.trans (List.filter_congr hmem)⟩
  · rintro ⟨hmem, heq⟩
    exact heq.trans (List.filter_congr hmem).symm

end Sieve
