import Mathlib.Data.List.Nodup
import Mathlib.Tactic

/-!
# Tables with a unique key

A `Table` is a list of keyed rows in insertion order with no key twice: a database table with a primary key, or an
insertion-ordered map. A table is changed by key (`alter`: insert, replace or remove the row of one key), row by row (`mapRows`)
or by deleting rows (`filter`). The rules say what each change does to `get?`, the row of a key.
-/

namespace Keyed

/-- Rows in insertion order, each under a key of its own. -/
structure Table (κ ρ : Type) where
  entries : List (κ × ρ)
  nodupKeys : (entries.map Prod.fst).Nodup

namespace Table

variable {κ ρ : Type}

/-- The table without rows. -/
def empty : Table κ ρ := ⟨[], List.nodup_nil⟩

/-- The keys of the rows, in insertion order. -/
def keys (t : Table κ ρ) : List κ := t.entries.map Prod.fst

theorem keys_nodup (t : Table κ ρ) : t.keys.Nodup := t.nodupKeys

variable [DecidableEq κ]

/-- The row under a key. -/
def get? (t : Table κ ρ) (k : κ) : Option ρ := t.entries.lookup k

/-- `f` applied to the row of one key: the row is replaced in place, removed, or put after the others. -/
def alterEntries (k : κ) (f : Option ρ → Option ρ) : List (κ × ρ) → List (κ × ρ)
  | [] => match f none with
    | none => []
    | some v => [(k, v)]
  | (k', v) :: es => if k' = k then
      match f (some v) with
      | none => es
      | some v' => (k, v') :: es
    else (k', v) :: alterEntries k f es

/-- After a change a key was there before, or is the one that was changed. -/
theorem mem_keys_alterEntries {k k' : κ} {f : Option ρ → Option ρ} {es : List (κ × ρ)}
    (h : k' ∈ (alterEntries k f es).map Prod.fst) : k' = k ∨ k' ∈ es.map Prod.fst := by
  induction es with
  | nil =>
    unfold alterEntries at h
    split at h <;> simp_all
  | cons e es ih =>
    obtain ⟨a, v⟩ := e
    unfold alterEntries at h
    split at h
    · split at h <;> simp_all
    · simp only [List.map_cons, List.mem_cons] at h ⊢
      rcases h with h | h
      · exact Or.inr (Or.inl h)
      · exact (ih h).imp id Or.inr

/-- A change keeps the keys distinct. -/
theorem alterEntries_nodup (k : κ) (f : Option ρ → Option ρ) {es : List (κ × ρ)} (h : (es.map Prod.fst).Nodup) :
    ((alterEntries k f es).map Prod.fst).Nodup := by
  induction es with
  | nil =>
    unfold alterEntries
    split <;> simp
  | cons e es ih =>
    obtain ⟨a, v⟩ := e
    obtain ⟨hn, hes⟩ := List.nodup_cons.1 h
    unfold alterEntries
    split
    · rename_i hak
      subst hak
      split
      · exact hes
      · exact List.nodup_cons.2 ⟨hn, hes⟩
    · rename_i hak
      refine List.nodup_cons.2 ⟨fun hm => ?_, ih hes⟩
      rcases mem_keys_alterEntries hm with h' | h'
      · exact hak h'
      · exact hn h'

/-- `f` applied to the row of one key; every other row stays. -/
def alter (t : Table κ ρ) (k : κ) (f : Option ρ → Option ρ) : Table κ ρ :=
  ⟨alterEntries k f t.entries, alterEntries_nodup k f t.nodupKeys⟩

/-- The row put under a key, in the place of the one there. -/
def put (t : Table κ ρ) (k : κ) (v : ρ) : Table κ ρ := t.alter k fun _ => some v

/-- Every row rewritten under its key. -/
def mapRows (t : Table κ ρ) (f : κ → ρ → ρ) : Table κ ρ :=
  ⟨t.entries.map fun e => (e.1, f e.1 e.2), by simpa [List.map_map, Function.comp_def] using t.nodupKeys⟩

/-- The rows that pass a test. -/
def filter (t : Table κ ρ) (p : κ → ρ → Bool) : Table κ ρ :=
  ⟨t.entries.filter fun e => p e.1 e.2, t.nodupKeys.sublist (List.filter_sublist.map _)⟩

/-! ## The row of a key after each change -/

/-- A key that is not there has no row. -/
theorem lookup_eq_none {k : κ} : ∀ {es : List (κ × ρ)}, k ∉ es.map Prod.fst → es.lookup k = none
  | [], _ => rfl
  | (a, v) :: es, h => by
    simp only [List.map_cons, List.mem_cons, not_or] at h
    rw [List.lookup_cons, beq_false_of_ne h.1]
    exact lookup_eq_none h.2

/-- A change changes the row of its key. -/
theorem lookup_alterEntries (k k' : κ) (f : Option ρ → Option ρ) :
    ∀ {es : List (κ × ρ)}, (es.map Prod.fst).Nodup →
      (alterEntries k f es).lookup k' = if k' = k then f (es.lookup k) else es.lookup k' := by
  intro es hes
  induction es with
  | nil =>
    unfold alterEntries
    by_cases hk : k' = k
    · subst hk
      cases h : f none <;> simp [h]
    · cases h : f none <;> simp [hk, List.lookup_cons, beq_false_of_ne hk]
  | cons e es ih =>
    obtain ⟨a, v⟩ := e
    obtain ⟨hn, hes⟩ := List.nodup_cons.1 hes
    unfold alterEntries
    by_cases hak : a = k
    · subst hak
      rw [if_pos rfl]
      by_cases hk : k' = a
      · subst hk
        cases h : f (some v) with
        | none => simpa [h] using lookup_eq_none hn
        | some v' => simp [h]
      · cases h : f (some v) <;> simp [hk, List.lookup_cons, beq_false_of_ne hk]
    · rw [if_neg hak]
      by_cases hk : k' = a
      · subst hk
        simp [hak]
      · rw [List.lookup_cons, beq_false_of_ne hk]
        simp only [ih hes, List.lookup_cons, beq_false_of_ne hk, beq_false_of_ne (Ne.symm hak)]

@[simp] theorem get?_empty (k : κ) : (empty : Table κ ρ).get? k = none := rfl

/-- After a change, its key has the new row and the others have the old ones. -/
theorem get?_alter (t : Table κ ρ) (k k' : κ) (f : Option ρ → Option ρ) :
    (t.alter k f).get? k' = if k' = k then f (t.get? k) else t.get? k' :=
  lookup_alterEntries k k' f t.nodupKeys

@[simp] theorem get?_alter_self (t : Table κ ρ) (k : κ) (f : Option ρ → Option ρ) :
    (t.alter k f).get? k = f (t.get? k) := by
  rw [get?_alter, if_pos rfl]

/-- After a row was put in, its key has it. -/
theorem get?_put (t : Table κ ρ) (k k' : κ) (v : ρ) :
    (t.put k v).get? k' = if k' = k then some v else t.get? k' :=
  get?_alter t k k' _

/-- What holds of the rows of a table and of a row put in holds of its rows then. -/
theorem forall_put {P : κ → ρ → Prop} {t : Table κ ρ} (h : ∀ k v, t.get? k = some v → P k v) {k : κ} {v : ρ} (hrow : P k v) :
    ∀ k' v', (t.put k v).get? k' = some v' → P k' v' := by
  intro k' v' hget
  rw [get?_put] at hget
  split at hget
  · rename_i heq
    cases hget
    rw [heq]
    exact hrow
  · exact h k' v' hget

/-- The entries are the keys with their rows. -/
theorem mem_entries_iff (t : Table κ ρ) (k : κ) (v : ρ) : (k, v) ∈ t.entries ↔ t.get? k = some v := by
  obtain ⟨es, hes⟩ := t
  show (k, v) ∈ es ↔ es.lookup k = some v
  induction es with
  | nil => simp
  | cons e es ih =>
    obtain ⟨a, w⟩ := e
    obtain ⟨hn, hes⟩ := List.nodup_cons.1 hes
    by_cases hk : k = a
    · subst hk
      have hv : (k, v) ∉ es := fun hm => hn (List.mem_map.2 ⟨_, hm, rfl⟩)
      simp [hv, eq_comm]
    · simp only [List.mem_cons, Prod.mk.injEq, hk, false_and, false_or, List.lookup_cons, beq_false_of_ne hk]
      exact ih hes

/-- The keys are those with a row. -/
theorem mem_keys_iff (t : Table κ ρ) (k : κ) : k ∈ t.keys ↔ (t.get? k).isSome := by
  rw [Option.isSome_iff_exists]
  simp only [keys, List.mem_map, Prod.exists, exists_and_right, exists_eq_right, mem_entries_iff]

@[simp] theorem get?_mapRows (t : Table κ ρ) (f : κ → ρ → ρ) (k : κ) :
    (t.mapRows f).get? k = (t.get? k).map (f k) := by
  obtain ⟨es, hes⟩ := t
  show (es.map fun e => (e.1, f e.1 e.2)).lookup k = (es.lookup k).map (f k)
  clear hes
  induction es with
  | nil => rfl
  | cons e es ih =>
    obtain ⟨a, w⟩ := e
    by_cases hk : k = a
    · subst hk; simp
    · simpa [List.lookup_cons, beq_false_of_ne hk] using ih

@[simp] theorem get?_filter (t : Table κ ρ) (p : κ → ρ → Bool) (k : κ) :
    (t.filter p).get? k = (t.get? k).filter (p k) := by
  cases h : (t.filter p).get? k with
  | some v =>
    rw [← mem_entries_iff] at h
    obtain ⟨hm, hp⟩ := List.mem_filter.1 h
    rw [(mem_entries_iff t k v).1 hm, Option.filter_some, if_pos hp]
  | none =>
    cases hv : t.get? k with
    | none => rfl
    | some v =>
      have hnot : ¬(p k v = true) := fun hp => by
        have : (t.filter p).get? k = some v :=
          (mem_entries_iff _ k v).1 (List.mem_filter.2 ⟨(mem_entries_iff t k v).2 hv, hp⟩)
        rw [h] at this
        cases this
      rw [Option.filter_some, if_neg hnot]

/-- A row that is left was in the table. -/
theorem get?_of_filter {t : Table κ ρ} {p : κ → ρ → Bool} {k : κ} {v : ρ} (h : (t.filter p).get? k = some v) :
    t.get? k = some v := by
  rw [get?_filter] at h
  exact (Option.filter_eq_some_iff.1 h).1

/-- A test that all rows pass removes none. -/
theorem filter_eq_self {t : Table κ ρ} {p : κ → ρ → Bool} (h : ∀ k v, t.get? k = some v → p k v = true) : t.filter p = t := by
  have hentries : t.entries.filter (fun e => p e.1 e.2) = t.entries :=
    List.filter_eq_self.2 fun e he => h e.1 e.2 ((mem_entries_iff t e.1 e.2).1 he)
  cases t
  simp only [filter, hentries]

/-! ## Grouping -/

/-- Rows grouped one after the other under their keys: the row of a key is what the elements of that key make of it. -/
theorem get?_foldl_alter {α : Type} (key : α → κ) (f : α → Option ρ → ρ) (l : List α) (t : Table κ ρ) (k : κ) :
    (l.foldl (fun t a => t.alter (key a) fun s => some (f a s)) t).get? k =
      (l.filter fun a => key a = k).foldl (fun s a => some (f a s)) (t.get? k) := by
  induction l generalizing t with
  | nil => rfl
  | cons a l ih =>
    rw [List.foldl_cons, ih, get?_alter]
    by_cases hk : key a = k
    · rw [List.filter_cons_of_pos (by simpa using hk), List.foldl_cons, if_pos hk.symm, hk]
    · rw [List.filter_cons_of_neg (by simpa using hk), if_neg (Ne.symm hk)]

/-- The row of a new key comes last. -/
theorem alterEntries_fresh {k : κ} {f : Option ρ → Option ρ} {v : ρ} (hf : f none = some v) {es : List (κ × ρ)}
    (h : es.lookup k = none) : alterEntries k f es = es ++ [(k, v)] := by
  induction es with
  | nil => simp [alterEntries, hf]
  | cons e es ih =>
    obtain ⟨k', v'⟩ := e
    rw [List.lookup_cons] at h
    have hne : k' ≠ k := by
      rintro rfl
      simp at h
    rw [beq_false_of_ne (Ne.symm hne)] at h
    rw [alterEntries, if_neg hne, ih h, List.cons_append]

/-- Elements with keys of their own make a row each, in their order. -/
theorem entries_foldl_alter {α : Type} (key : α → κ) (f : α → Option ρ → ρ) {l : List α} (h : (l.map key).Nodup) :
    (l.foldl (fun t a => t.alter (key a) fun s => some (f a s)) (empty : Table κ ρ)).entries =
        l.map fun a => (key a, f a none) := by
  induction l using List.reverseRecOn with
  | nil => rfl
  | append_singleton l a ih =>
    rw [List.map_append, List.nodup_append] at h
    obtain ⟨hl, -, hdisjoint⟩ := h
    have hnone : (l.foldl (fun t a => t.alter (key a) fun s => some (f a s)) (empty : Table κ ρ)).get? (key a) = none := by
      have hempty : l.filter (fun b => key b = key a) = [] := by
        refine List.filter_eq_nil_iff.2 fun b hb => ?_
        simpa using hdisjoint (key b) (List.mem_map.2 ⟨b, hb, rfl⟩) (key a) (by simp)
      rw [get?_foldl_alter, hempty]
      rfl
    rw [List.foldl_append, List.map_append, ← ih hl]
    exact alterEntries_fresh rfl hnone

/-- So does the key. -/
theorem map_fst_alterEntries {k : κ} {f : Option ρ → ρ} {es : List (κ × ρ)} :
    (alterEntries k (fun s => some (f s)) es).map Prod.fst = if k ∈ es.map Prod.fst then es.map Prod.fst
        else es.map Prod.fst ++ [k] := by
  induction es with
  | nil => simp [alterEntries]
  | cons e es ih =>
    obtain ⟨k', v⟩ := e
    unfold alterEntries
    by_cases hk : k' = k
    · subst hk
      simp
    · rw [if_neg hk, List.map_cons, ih]
      by_cases hm : k ∈ es.map Prod.fst
      · rw [if_pos hm, List.map_cons, if_pos (List.mem_cons_of_mem _ hm)]
      · rw [if_neg hm, List.map_cons, if_neg (by rw [List.mem_cons, not_or]; exact ⟨Ne.symm hk, hm⟩), List.cons_append]

/-- The keys of rows grouped one after the other come in the order in which they first came. -/
theorem keys_foldl_alter {α : Type} (key : α → κ) (f : α → Option ρ → ρ) (l : List α) :
    (l.foldl (fun t a => t.alter (key a) fun s => some (f a s)) (empty : Table κ ρ)).keys = (l.map key).eraseDups := by
  induction l using List.reverseRecOn with
  | nil => rfl
  | append_singleton l a ih =>
    have hkeys : ∀ t : Table κ ρ, (t.alter (key a) fun s => some (f a s)).keys = if key a ∈
        t.keys then t.keys else t.keys ++ [key a] :=
      fun t => map_fst_alterEntries
    rw [List.foldl_append, List.foldl_cons, List.foldl_nil, hkeys, ih, List.map_append, List.eraseDups_append, List.map_singleton]
    generalize l.map key = ks
    by_cases hm : key a ∈ ks
    · rw [if_pos (List.mem_eraseDups.2 hm)]
      simp [List.removeAll, hm]
    · have hone : [key a].eraseDups = [key a] := rfl
      rw [if_neg (mt List.mem_eraseDups.1 hm)]
      simp [List.removeAll, hm, hone]

theorem nodup_eraseDups (l : List κ) : l.eraseDups.Nodup := by
  have hnodup := keys_nodup (l.foldl (fun t a => t.alter a fun _ => some ()) (empty : Table κ Unit))
  rwa [keys_foldl_alter (fun a => a) (fun _ _ => ()), List.map_id'] at hnodup

/-- A list made of the rows is made key by key. -/
theorem flatMap_entries {α : Type} (t : Table κ ρ) (g : ρ → List α) :
    (t.entries.flatMap fun e => g e.2) = t.keys.flatMap fun k => ((t.get? k).map g).getD [] := by
  rw [keys, List.flatMap_map]
  refine List.flatMap_congr fun e he => ?_
  rw [(mem_entries_iff t e.1 e.2).1 he]
  rfl

/-- Of a list made of the rows, what belongs to a key comes from the row of that key. -/
theorem filter_flatMap_entries {α : Type} {t : Table κ ρ} {g : ρ → List α} {key : α → κ}
    (h : ∀ k v, t.get? k = some v → ∀ a ∈ g v, key a = k) (k : κ) :
    (t.entries.flatMap fun e => g e.2).filter (fun a => key a = k) = ((t.get? k).map g).getD [] := by
  obtain ⟨es, hes⟩ := t
  have hkey : ∀ e ∈ es, ∀ a ∈ g e.2, key a = e.1 := fun e he => h e.1 e.2 ((mem_entries_iff ⟨es, hes⟩ e.1 e.2).1 he)
  show (es.flatMap fun e => g e.2).filter (fun a => key a = k) = ((es.lookup k).map g).getD []
  clear h
  induction es with
  | nil => rfl
  | cons e es ih =>
    obtain ⟨k', v⟩ := e
    obtain ⟨hn, hes'⟩ := List.nodup_cons.1 hes
    have hhead := hkey (k', v) List.mem_cons_self
    have htail := fun e he => hkey e (List.mem_cons_of_mem _ he)
    rw [List.flatMap_cons, List.filter_append]
    by_cases hk : k = k'
    · subst hk
      have hall : (g v).filter (fun a => key a = k) = g v :=
        List.filter_eq_self.2 fun a ha => decide_eq_true (hhead a ha)
      have hnone : (es.flatMap fun e => g e.2).filter (fun a => key a = k) = [] := by
        rw [ih hes' htail, lookup_eq_none hn]
        rfl
      rw [hall, hnone, List.append_nil, List.lookup_cons_self]
      rfl
    · have hnone : (g v).filter (fun a => key a = k) = [] := by
        refine List.filter_eq_nil_iff.2 fun a ha => ?_
        rw [hhead a ha]
        simpa using Ne.symm hk
      rw [hnone, List.nil_append, ih hes' htail, List.lookup_cons, beq_false_of_ne hk]

end Table

end Keyed
