import Mathlib.Data.List.Sort

/-!
# Lists ranked by a strict order

A list of pairwise comparable elements has one arrangement along a strict order, the one insertion sort gives. The module says how
that arrangement follows changes of the list, what its first `k` elements, a window, do when one element comes in, and that they
are the elements with less than `k` others before them.
-/

namespace Ranked

variable {α : Type} {r : α → α → Prop} [DecidableRel r]

/-! ## Sorting -/

/-- An element put where it belongs keeps the order, when it can be compared to every other one. -/
theorem pairwise_orderedInsert [IsTrans α r] {a : α} {l : List α} (hl : l.Pairwise r) (ha : ∀ b ∈ l, r a b ∨ r b a) :
    (l.orderedInsert r a).Pairwise r := by
  induction l with
  | nil => exact List.pairwise_singleton r a
  | cons b l ih =>
    obtain ⟨hb, hl'⟩ := List.pairwise_cons.1 hl
    rw [List.orderedInsert_cons]
    split
    · rename_i hab
      refine List.pairwise_cons.2 ⟨fun c hc => ?_, hl⟩
      rcases List.mem_cons.1 hc with rfl | hc
      · exact hab
      · exact IsTrans.trans _ _ _ hab (hb c hc)
    · rename_i hab
      refine List.pairwise_cons.2 ⟨fun c hc => ?_, ih hl' fun c hc => ha c (List.mem_cons_of_mem _ hc)⟩
      rcases (List.mem_orderedInsert r).1 hc with rfl | hc
      · exact (ha b List.mem_cons_self).resolve_left hab
      · exact hb c hc

/-- An element before all others is put first. -/
theorem orderedInsert_first {a : α} {l : List α} (h : ∀ b ∈ l, r a b) : l.orderedInsert r a = a :: l := by
  cases l with
  | nil => rfl
  | cons b l => rw [List.orderedInsert_cons, if_pos (h b List.mem_cons_self)]

/-- An element before no other is put last. -/
theorem orderedInsert_last {a : α} {l : List α} (h : ∀ b ∈ l, ¬r a b) : l.orderedInsert r a = l ++ [a] := by
  induction l with
  | nil => rfl
  | cons b l ih =>
    rw [List.orderedInsert_cons, if_neg (h b List.mem_cons_self), ih fun c hc =>
      h c (List.mem_cons_of_mem _ hc), List.cons_append]

/-- Pairwise comparable elements are sorted. -/
theorem pairwise_insertionSort [IsTrans α r] {l : List α} (h : l.Pairwise fun a b => r a b ∨ r b a) :
    (l.insertionSort r).Pairwise r := by
  induction l with
  | nil => exact List.Pairwise.nil
  | cons a l ih =>
    obtain ⟨ha, hl⟩ := List.pairwise_cons.1 h
    rw [List.insertionSort_cons]
    exact pairwise_orderedInsert (ih hl) fun b hb => ha b ((List.mem_insertionSort r).1 hb)

/-- Sorting after an element was put at the end is putting the element where it belongs. -/
theorem insertionSort_append_singleton [IsTrans α r] [Std.Asymm r] {l : List α} {a : α}
    (h : (l ++ [a]).Pairwise fun a b => r a b ∨ r b a) :
    (l ++ [a]).insertionSort r = (l.insertionSort r).orderedInsert r a := by
  obtain ⟨hl, -, hla⟩ := List.pairwise_append.1 h
  refine List.Perm.eq_of_pairwise' (pairwise_insertionSort h) (pairwise_orderedInsert (pairwise_insertionSort hl) ?_) ?_
  · intro b hb
    exact (hla b ((List.mem_insertionSort r).1 hb) a (List.mem_singleton_self a)).symm
  · have hend : (l ++ [a]).Perm (a :: l.insertionSort r) :=
      (List.perm_append_singleton a l).trans ((List.perm_insertionSort r l).symm.cons a)
    exact (List.perm_insertionSort r _).trans (hend.trans (List.perm_orderedInsert r a _).symm)

/-- Sorting the elements that pass a test is keeping those that pass it in the sorted list. -/
theorem insertionSort_filter [IsTrans α r] [Std.Asymm r] {l : List α} (h : l.Pairwise fun a b => r a b ∨ r b a) (p : α → Bool) :
    (l.filter p).insertionSort r = (l.insertionSort r).filter p :=
  List.Perm.eq_of_pairwise' (pairwise_insertionSort (h.sublist List.filter_sublist))
    ((pairwise_insertionSort h).sublist List.filter_sublist)
    ((List.perm_insertionSort r _).trans ((List.perm_insertionSort r l).symm.filter p))

/-! ## One order after another -/

/-- One order, and another where the first has two elements both ways. -/
def ThenBy (r s : α → α → Prop) (a b : α) : Prop := r a b ∧ (r b a → s a b)

section ThenBy

variable {r s : α → α → Prop}

theorem ThenBy.total (hr : ∀ a b, r a b ∨ r b a) (hs : ∀ a b, s a b ∨ s b a) (a b : α) : ThenBy r s a b ∨ ThenBy r s b a := by
  by_cases hab : r a b
  · by_cases hba : r b a
    · exact (hs a b).imp (fun h => ⟨hab, fun _ => h⟩) fun h => ⟨hba, fun _ => h⟩
    · exact Or.inl ⟨hab, fun h => absurd h hba⟩
  · exact Or.inr ⟨(hr a b).resolve_left hab, fun h => absurd h hab⟩

theorem ThenBy.trans (hr : ∀ a b c, r a b → r b c → r a c) (hs : ∀ a b c, s a b → s b c → s a c)
    {a b c : α} (hab : ThenBy r s a b)
    (hbc : ThenBy r s b c) : ThenBy r s a c :=
  ⟨hr a b c hab.1 hbc.1, fun hca => hs a b c (hab.2 (hr b c a hbc.1 hca)) (hbc.2 (hr c a b hca hab.1))⟩

/-- A stable sort of a list that stands in some order sorts it by that order second. -/
theorem pairwise_mergeSort_thenBy {le : α → α → Bool} (htrans : ∀ a b c, le a b → le b c → le a c)
    (htotal : ∀ a b, le a b || le b a)
    {l : List α} (h : l.Pairwise s) : (l.mergeSort le).Pairwise (ThenBy (fun a b => le a b = true) s) := by
  induction l with
  | nil =>
    rw [List.mergeSort_nil]
    exact List.Pairwise.nil
  | cons a l ih =>
    obtain ⟨ha, hl⟩ := List.pairwise_cons.1 h
    obtain ⟨l₁, l₂, hcons, hrest, hbefore⟩ := List.mergeSort_cons htrans htotal a l
    have hsorted := List.pairwise_mergeSort htrans htotal (a :: l)
    have hih := ih hl
    have hmem : ∀ b ∈ l₂, b ∈ l := by
      intro b hb
      have hb' : b ∈ l.mergeSort le := by
        rw [hrest]
        exact List.mem_append_right _ hb
      exact List.mem_mergeSort.1 hb'
    rw [hcons, List.pairwise_append, List.pairwise_cons] at hsorted
    rw [hrest, List.pairwise_append] at hih
    obtain ⟨-, ⟨hafter, -⟩, hfirst⟩ := hsorted
    obtain ⟨hl₁, hl₂, hboth⟩ := hih
    rw [hcons]
    refine List.pairwise_append.2 ⟨hl₁, List.pairwise_cons.2 ⟨fun b hb => ⟨hafter b hb, fun _ => ha b (hmem b hb)⟩, hl₂⟩, ?_⟩
    intro b hb c hc
    rcases List.mem_cons.1 hc with rfl | hc
    · exact ⟨hfirst b hb c List.mem_cons_self, fun hle => absurd hle (by simpa using hbefore b hb)⟩
    · exact hboth b hb c hc

end ThenBy

/-! ## Windows -/

/-- An element that comes in comes into the window, or the window stays. -/
theorem mem_or_take_orderedInsert (a : α) (l : List α) (k : Nat) :
    a ∈ (l.orderedInsert r a).take k ∨ (l.orderedInsert r a).take k = l.take k := by
  induction l generalizing k with
  | nil => cases k <;> simp
  | cons b l ih =>
    cases k with
    | zero => exact Or.inr rfl
    | succ k =>
      rw [List.orderedInsert_cons]
      split
      · exact Or.inl List.mem_cons_self
      · rcases ih k with h | h
        · exact Or.inl (List.mem_cons_of_mem _ h)
        · refine Or.inr ?_
          rw [List.take_succ_cons, List.take_succ_cons, h]

/-- A window of a list arranged by a key holds every element with a smaller key than one it holds. -/
theorem mem_take_of_key_lt {β : Type} [LinearOrder β] (key : α → β) {l : List α}
    (h : l.Pairwise fun a b => key a ≤ key b) {k : Nat}
    {a b : α} (ha : a ∈ l.take k) (hb : b ∈ l) (hlt : key b < key a) : b ∈ l.take k := by
  rw [← List.take_append_drop k l] at h hb
  rcases List.mem_append.1 hb with hb | hb
  · exact hb
  · exact absurd ((List.pairwise_append.1 h).2.2 a ha b hb) (not_le.2 hlt)

/-- The number of elements before an element. -/
def rank (r : α → α → Prop) [DecidableRel r] (l : List α) (a : α) : Nat := l.countP fun b => decide (r b a)

/-- A rank does not depend on how the list is arranged. -/
theorem rank_perm {l l' : List α} (h : l.Perm l') (a : α) : rank r l a = rank r l' a := h.countP_eq _

/-- The window of a sorted list is made of the elements of a rank less than its length. -/
theorem filter_rank_lt [Std.Asymm r] {l : List α} (h : l.Pairwise r) (k : Nat) :
    (l.filter fun a => decide (rank r l a < k)) = l.take k := by
  induction l generalizing k with
  | nil => simp
  | cons b l ih =>
    obtain ⟨hb, hl⟩ := List.pairwise_cons.1 h
    have hirrefl : ¬r b b := Std.Irrefl.irrefl b
    have hhead : rank r (b :: l) b = 0 := by
      refine List.countP_eq_zero.2 fun c hc => ?_
      rcases List.mem_cons.1 hc with rfl | hc
      · simpa using hirrefl
      · simpa using Std.Asymm.asymm b c (hb c hc)
    have htail : ∀ a ∈ l, rank r (b :: l) a = rank r l a + 1 := by
      intro a ha
      exact List.countP_cons_of_pos (decide_eq_true (hb a ha))
    cases k with
    | zero => simp
    | succ k =>
      rw [List.filter_cons_of_pos (by simp [hhead]), List.take_succ_cons, ← ih hl k]
      congr 1
      refine List.filter_congr fun a ha => ?_
      rw [htail a ha]
      simp

end Ranked
