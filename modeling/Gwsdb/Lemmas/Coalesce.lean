import Gwsdb.Store.Programs

/-!
# Coalesced rows

What `coalesceCheckRows` keeps of each IP: at most a success and after it a failure (`Shape`), and what the pool
update makes of them. Which rows these are is said of objects that references name (`isState`), and the rows
themselves are a case of it (`isLatest`).
-/

namespace Gwsdb.Store

open Keyed (Table)

/-! ## One IP -/

/-- The state of an IP after its rows. -/
def coalesced (rows : List CheckRow) : Option Coalesced := rows.foldl (fun state row => some (coalesceRow row state)) none

/-- The rows kept for an IP, from all its rows. -/
def keptRows (rows : List CheckRow) : List CheckRow := ((coalesced rows).map Coalesced.rows).getD []

/-- One row more is coalesced with what those before gave. -/
theorem coalesced_concat (rows : List CheckRow) (row : CheckRow) :
    coalesced (rows ++ [row]) = some (coalesceRow row (coalesced rows)) := by
  unfold coalesced
  rw [List.foldl_append]
  rfl

/-- No row, no state. -/
theorem coalesced_eq_none {rows : List CheckRow} : coalesced rows = none ↔ rows = [] := by
  rcases List.eq_nil_or_concat rows with rfl | ⟨init, last, rfl⟩
  · exact ⟨fun _ => rfl, fun _ => rfl⟩
  · rw [List.concat_eq_append, coalesced_concat]
    simp

/-- The state of an IP holds rows of it: the latest one, and a success where there is one. -/
structure IsCoalesced (rows : List CheckRow) (state : Coalesced) : Prop where
  latest_mem : state.latest ∈ rows
  success_mem : ∀ s, state.latestSuccess = some s → s ∈ rows ∧ s.ok = true
  success_of_ok : ∀ row ∈ rows, row.ok = true → state.latestSuccess ≠ none

/-- With dates that are valid, the latest row is no older than any row and the success no older than any success. -/
structure IsLatest (rows : List CheckRow) (state : Coalesced) : Prop where
  latest_ge : ∀ row ∈ rows, state.latest.checkedAt.ge row.checkedAt = true
  success_ge : ∀ s, state.latestSuccess = some s → ∀ row ∈ rows, row.ok = true → s.checkedAt.ge row.checkedAt = true
  success_of_latest : state.latest.ok = true → state.latestSuccess = some state.latest

/-- What a list of rows is coalesced to is what it should be. -/
theorem isCoalesced (rows : List CheckRow) {state : Coalesced} (h : coalesced rows = some state) : IsCoalesced rows state := by
  induction rows using List.reverseRecOn generalizing state with
  | nil => cases h
  | append_singleton rows row ih =>
    rw [coalesced_concat] at h
    cases h
    have hmem : ∀ r ∈ rows, r ∈ rows ++ [row] := fun r hr => List.mem_append_left _ hr
    have hrow : row ∈ rows ++ [row] := by simp
    cases hold : coalesced rows with
    | none =>
      obtain rfl := coalesced_eq_none.1 hold
      refine ⟨hrow, ?_, ?_⟩
      · intro s hs
        simp only [coalesceRow] at hs
        split at hs
        · cases hs
          exact ⟨hrow, ‹_›⟩
        · cases hs
      · intro r hr hok
        obtain rfl := List.mem_singleton.1 hr
        simp [coalesceRow, hok]
    | some old =>
      obtain ⟨hlatest, hsuccess, hok⟩ := ih hold
      refine ⟨?_, ?_, ?_⟩
      · simp only [coalesceRow]
        split
        · exact hrow
        · exact hmem _ hlatest
      · intro s hs
        simp only [coalesceRow] at hs
        split at hs
        · rename_i hcond
          cases hs
          exact ⟨hrow, hcond.1⟩
        · exact ⟨hmem s (hsuccess s hs).1, (hsuccess s hs).2⟩
      · intro r hr hrok
        simp only [coalesceRow]
        split
        · exact Option.some_ne_none _
        · rename_i hcond
          rcases List.mem_append.1 hr with hr | hr
          · exact hok r hr hrok
          · obtain rfl := List.mem_singleton.1 hr
            intro hnone
            exact hcond ⟨hrok, by rw [hnone]; rfl⟩

theorem ge_iff {a b : Int} : JsDate.ge (some a) (some b) = true ↔ b ≤ a := decide_eq_true_iff

/-- Dates in order are in order with one left out. -/
theorem ge_trans {a b c : JsDate} (hab : a.ge b = true) (hbc : b.ge c = true) : a.ge c = true := by
  cases a <;> cases b <;> cases c <;> simp_all [JsDate.ge]
  omega

/-- Of two dates one is not before the other. -/
theorem ge_total {a b : JsDate} (ha : a.isSome) (hb : b.isSome) : a.ge b = true ∨ b.ge a = true := by
  obtain ⟨a, rfl⟩ := Option.isSome_iff_exists.1 ha
  obtain ⟨b, rfl⟩ := Option.isSome_iff_exists.1 hb
  rw [ge_iff, ge_iff]
  exact le_total b a

/-! ## The objects of an IP -/

section
variable {Ref : Type} (row : Ref → CheckRow)

/-- The last object of a list among those of the greatest date. -/
def LastLatest (l : List Ref) (x : Ref) : Prop :=
  ∃ before after, l = before ++ x :: after ∧ (∀ y ∈ before, (row x).checkedAt.ge (row y).checkedAt = true) ∧
    ∀ y ∈ after, (row y).checkedAt.ge (row x).checkedAt = false

variable {row}

/-- The last of the latest is in the list. -/
theorem LastLatest.mem {l : List Ref} {x : Ref} (h : LastLatest row l x) : x ∈ l := by
  obtain ⟨before, after, rfl, -, -⟩ := h
  simp

/-- The last of the latest is no older than any. -/
theorem LastLatest.ge {l : List Ref} {x : Ref} (h : LastLatest row l x) (hdates : ∀ r ∈ l, (row r).checkedAt.isSome) :
    ∀ y ∈ l, (row x).checkedAt.ge (row y).checkedAt = true := by
  have hx := hdates x h.mem
  obtain ⟨before, after, rfl, hbefore, hafter⟩ := h
  intro y hy
  rcases List.mem_append.1 hy with hm | hm
  · exact hbefore y hm
  rcases List.mem_cons.1 hm with rfl | hm
  · exact (ge_total hx hx).elim id id
  · exact (ge_total hx (hdates y hy)).resolve_right (Bool.eq_false_iff.1 (hafter y hm))

/-- One more object is the last of the latest if it is no older than the one before, which else stays it. -/
theorem LastLatest.append {l : List Ref} {x r : Ref} (h : LastLatest row l x) (hdates : ∀ r ∈ l, (row r).checkedAt.isSome) :
    LastLatest row (l ++ [r]) (if (row r).checkedAt.ge (row x).checkedAt then r else x) := by
  split
  · rename_i hge
    exact ⟨l, [], rfl, fun y hy => ge_trans hge (h.ge hdates y hy), nofun⟩
  · rename_i hlt
    obtain ⟨before, after, rfl, hbefore, hafter⟩ := h
    refine ⟨before, after ++ [r], by simp, hbefore, fun y hy => ?_⟩
    rcases List.mem_append.1 hy with hm | hm
    · exact hafter y hm
    · rw [List.mem_singleton.1 hm]
      exact Bool.eq_false_iff.2 hlt

theorem LastLatest.single (r : Ref) : LastLatest row [r] r := ⟨[], [], rfl, nofun, nofun⟩

/-- The state of an IP after its objects. -/
def coalescedRefs (row : Ref → CheckRow) (l : List Ref) : Option (CoalescedRefs Ref) :=
  l.foldl (fun state r => some (coalesceRef row r state)) none

/-- One object more is coalesced with what those before gave. -/
theorem coalescedRefs_concat (l : List Ref) (r : Ref) :
    coalescedRefs row (l ++ [r]) = some (coalesceRef row r (coalescedRefs row l)) := by
  unfold coalescedRefs
  rw [List.foldl_append]
  rfl

/-- No object, no state. -/
theorem coalescedRefs_eq_none {l : List Ref} : coalescedRefs row l = none ↔ l = [] := by
  rcases List.eq_nil_or_concat l with rfl | ⟨init, last, rfl⟩
  · exact ⟨fun _ => rfl, fun _ => rfl⟩
  · rw [List.concat_eq_append, coalescedRefs_concat]
    simp

/-- The state of an IP: the last of the latest objects and the last of the latest successes, which are one object
where the former is a success. -/
structure IsState (row : Ref → CheckRow) (l : List Ref) (state : CoalescedRefs Ref) : Prop where
  latest : LastLatest row l state.latest
  success : ∀ s, state.latestSuccess = some s → LastLatest row (l.filter fun y => (row y).ok) s
  failures : state.latestSuccess = none → ∀ y ∈ l, (row y).ok = false
  same : (row state.latest).ok = true → state.latestSuccess = some state.latest

/-- The state of dated objects is what it should be. -/
theorem isState {l : List Ref} (hdates : ∀ r ∈ l, (row r).checkedAt.isSome) {state : CoalescedRefs Ref}
    (h : coalescedRefs row l = some state) : IsState row l state := by
  induction l using List.reverseRecOn generalizing state with
  | nil => cases h
  | append_singleton l r ih =>
    rw [coalescedRefs_concat] at h
    cases h
    have hdates' : ∀ y ∈ l, (row y).checkedAt.isSome := fun y hy => hdates y (List.mem_append_left _ hy)
    cases hold : coalescedRefs row l with
    | none =>
      obtain rfl := coalescedRefs_eq_none.1 hold
      cases hok : (row r).ok with
      | true =>
        refine ⟨LastLatest.single r, ?_, by simp [coalesceRef, hok], by simp [coalesceRef, hok]⟩
        simp [coalesceRef, hok, LastLatest.single]
      | false => exact ⟨LastLatest.single r, by simp [coalesceRef, hok], by simp [hok], by simp [coalesceRef, hok]⟩
    | some old =>
      have hstate := ih hdates' hold
      have hlatest := hstate.latest.append (r := r) hdates'
      cases hok : (row r).ok with
      | false =>
        have hcond : ¬((row r).ok = true ∧ old.latestSuccess.all (fun s => (row r).checkedAt.ge (row s).checkedAt) = true) :=
          fun h => by rw [hok] at h; cases h.1
        have hfilter : (l ++ [r]).filter (fun y => (row y).ok) = l.filter fun y => (row y).ok := by simp [hok]
        simp only [coalesceRef, if_neg hcond]
        refine ⟨hlatest, ?_, ?_, ?_⟩
        · rw [hfilter]
          exact hstate.success
        · intro hnone y hy
          rcases List.mem_append.1 hy with hm | hm
          · exact hstate.failures hnone y hm
          · rw [List.mem_singleton.1 hm, hok]
        · simp only
          split
          · rw [hok]
            nofun
          · exact hstate.same
      | true =>
        have hfilter : (l ++ [r]).filter (fun y => (row y).ok) = l.filter (fun y => (row y).ok) ++ [r] := by simp [hok]
        cases hs : old.latestSuccess with
        | none =>
          have hnil : l.filter (fun y => (row y).ok) = [] :=
            List.filter_eq_nil_iff.2 fun y hy => by rw [hstate.failures hs y hy]; nofun
          have hcond : (row r).ok = true ∧ (none : Option Ref).all (fun s => (row r).checkedAt.ge (row s).checkedAt) = true :=
            ⟨hok, rfl⟩
          simp only [coalesceRef, hs, if_pos hcond]
          refine ⟨hlatest, ?_, nofun, ?_⟩
          · rintro s heq
            cases heq
            rw [hfilter, hnil]
            exact LastLatest.single r
          · simp only
            split
            · exact fun _ => rfl
            · intro hlok
              rw [hstate.same hlok] at hs
              cases hs
        | some s =>
          have hsuccess := (hstate.success s hs).append (r := r) fun y hy => hdates' y (List.mem_filter.1 hy).1
          have hmem := (List.mem_filter.1 (hstate.success s hs).mem).1
          have hnew : (coalesceRef row r (some old)).latestSuccess =
              some (if (row r).checkedAt.ge (row s).checkedAt then r else s) := by
            simp only [coalesceRef, hs, hok, Option.all_some, true_and]
            split <;> rfl
          refine ⟨hlatest, ?_, ?_, ?_⟩
          · intro s' heq
            rw [hnew] at heq
            cases heq
            rw [hfilter]
            exact hsuccess
          · rw [hnew]
            nofun
          · intro hlok
            rw [hnew]
            by_cases hge : (row r).checkedAt.ge (row old.latest).checkedAt = true
            · have hges := ge_trans hge (hstate.latest.ge hdates' s hmem)
              simp [coalesceRef, hge, hges]
            · have hold' : (coalesceRef row r (some old)).latest = old.latest := by simp [coalesceRef, hge]
              rw [hold'] at hlok ⊢
              have heq := hstate.same hlok
              rw [hs, Option.some.injEq] at heq
              rw [heq, if_neg hge]

/-- The state of an IP as rows is that of its objects. -/
theorem coalesced_map (l : List Ref) :
    coalesced (l.map row) = (coalescedRefs row l).map fun state => ⟨row state.latest, state.latestSuccess.map row⟩ := by
  induction l using List.reverseRecOn with
  | nil => rfl
  | append_singleton l r ih =>
    rw [List.map_append, List.map_singleton, coalesced_concat, coalescedRefs_concat, ih, Option.map_some]
    cases coalescedRefs row l with
    | none => cases hok : (row r).ok <;> simp [coalesceRow, coalesceRef, hok]
    | some old =>
      simp only [coalesceRow, coalesceRef, Option.map_some, Option.all_map]
      rw [apply_ite row, apply_ite (Option.map row), Option.map_some]

end

/-- The rows are objects of their own. -/
theorem isLatest (rows : List CheckRow) (hdates : ∀ row ∈ rows, row.checkedAt.isSome) {state : Coalesced}
    (h : coalesced rows = some state) : IsLatest rows state := by
  have hmap : coalesced (rows.map id) = _ := coalesced_map rows
  rw [List.map_id, h] at hmap
  obtain ⟨refs, hrefs, rfl⟩ := Option.map_eq_some_iff.1 hmap.symm
  have hstate := isState hdates hrefs
  refine ⟨hstate.latest.ge hdates, fun s hs r hr hok => ?_, fun hok => ?_⟩
  · rw [Option.map_id_apply] at hs
    exact (hstate.success s hs).ge (fun y hy => hdates y (List.mem_filter.1 hy).1) r (List.mem_filter.2 ⟨hr, hok⟩)
  · rw [Option.map_id_apply]
    exact hstate.same hok

/-! ## The rows of an IP -/

/-- The rows kept for an IP: a failure, a success, or a success and a failure that is no older. -/
inductive Shape : List CheckRow → Prop
  | nil : Shape []
  | failure (l : CheckRow) (hl : l.ok = false) : Shape [l]
  | success (s : CheckRow) (hs : s.ok = true) : Shape [s]
  | both (s l : CheckRow) (hs : s.ok = true) (hl : l.ok = false) (hge : l.checkedAt.ge s.checkedAt = true) : Shape [s, l]

/-- Rows with valid dates are coalesced into one of the shapes. -/
theorem keptRows_shape {rows : List CheckRow} (hdates : ∀ row ∈ rows, row.checkedAt.isSome) : Shape (keptRows rows) := by
  unfold keptRows
  cases h : coalesced rows with
  | none => exact Shape.nil
  | some state =>
    have hstate := isCoalesced rows h
    have hlatest := isLatest rows hdates h
    rw [Option.map_some, Option.getD_some, Coalesced.rows]
    cases hs : state.latestSuccess with
    | none =>
      refine Shape.failure _ (Bool.eq_false_iff.2 fun hok => ?_)
      rw [hlatest.success_of_latest hok] at hs
      cases hs
    | some s =>
      obtain ⟨hsmem, hsok⟩ := hstate.success_mem s hs
      simp only
      split
      · rename_i heq
        exact Shape.success _ (heq ▸ hsok)
      · rename_i hne
        refine Shape.both s _ hsok (Bool.eq_false_iff.2 fun hok => hne ?_) (hlatest.latest_ge s hsmem)
        rw [hlatest.success_of_latest hok] at hs
        cases hs
        rfl

theorem ge_isSome {a b : JsDate} (h : a.ge b = true) : a.isSome ∧ b.isSome := by
  cases a <;> cases b <;> simp_all [JsDate.ge]

/-- Rows with invalid dates leave no trace but as the latest row or the success. -/
theorem coalesced_filter_valid {rows : List CheckRow} {state : Coalesced} (h : coalesced rows = some state)
    (hlatest : state.latest.checkedAt.isSome) (hsuccess : ∀ s, state.latestSuccess = some s → s.checkedAt.isSome) :
    coalesced (rows.filter fun row => row.checkedAt.isSome) = some state := by
  induction rows using List.reverseRecOn generalizing state with
  | nil => cases h
  | append_singleton rows row ih =>
    rw [coalesced_concat] at h
    obtain rfl := Option.some.inj h
    cases hold : coalesced rows with
    | none =>
      obtain rfl := coalesced_eq_none.1 hold
      rw [hold] at hlatest
      have hrow : row.checkedAt.isSome = true := hlatest
      simp [hrow, coalesced]
    | some old =>
      rw [hold] at hlatest hsuccess
      have hvalid : old.latest.checkedAt.isSome := by
        simp only [coalesceRow] at hlatest
        split at hlatest
        · exact (ge_isSome ‹_›).2
        · exact hlatest
      have hvalid' : ∀ s, old.latestSuccess = some s → s.checkedAt.isSome := by
        intro s hs
        simp only [coalesceRow] at hsuccess
        split at hsuccess
        · rename_i hcond
          have hall := hcond.2
          rw [hs] at hall
          exact (ge_isSome hall).2
        · exact hsuccess s hs
      have hrest := ih hold hvalid hvalid'
      rw [List.filter_append]
      by_cases hrow : row.checkedAt.isSome = true
      · have hkeep : [row].filter (fun row => row.checkedAt.isSome) = [row] := by simp [hrow]
        rw [hkeep, coalesced_concat, hrest]
      · -- the row changes nothing
        have hdrop : [row].filter (fun row => row.checkedAt.isSome) = [] := by simp [hrow]
        rw [hdrop, List.append_nil, hrest]
        have hold' : ¬row.checkedAt.ge old.latest.checkedAt = true := fun hge => hrow (ge_isSome hge).1
        have hnot : ¬(row.ok = true ∧ old.latestSuccess.all (fun s => row.checkedAt.ge s.checkedAt) = true) := by
          intro hcond
          simp only [coalesceRow, if_pos hcond] at hsuccess
          exact hrow (hsuccess row rfl)
        rw [coalesceRow, if_neg hold', if_neg hnot]

/-- So it is enough that the rows kept have valid dates. -/
theorem keptRows_shape_of_kept {rows : List CheckRow} (hdates : ∀ row ∈ keptRows rows, row.checkedAt.isSome) :
    Shape (keptRows rows) := by
  cases h : coalesced rows with
  | none =>
    rw [keptRows, h]
    exact Shape.nil
  | some state =>
    have hkept : keptRows rows = state.rows := by
      rw [keptRows, h]
      rfl
    rw [hkept] at hdates
    have hboth : state.latest ∈ state.rows ∧ ∀ s, state.latestSuccess = some s → s ∈ state.rows := by
      unfold Coalesced.rows
      split
      · rename_i hnone
        exact ⟨List.mem_cons_self, fun s hs => by rw [hnone] at hs; cases hs⟩
      · rename_i s hs
        split
        · rename_i heq
          refine ⟨List.mem_cons_self, fun s' hs' => ?_⟩
          rw [hs] at hs'
          obtain rfl := Option.some.inj hs'
          rw [heq]
          exact List.mem_cons_self
        · refine ⟨List.mem_cons_of_mem _ List.mem_cons_self, fun s' hs' => ?_⟩
          rw [hs] at hs'
          obtain rfl := Option.some.inj hs'
          exact List.mem_cons_self
    have hvalid := coalesced_filter_valid h (hdates _ hboth.1) fun s hs => hdates s (hboth.2 s hs)
    have hsame : keptRows rows = keptRows (rows.filter fun row => row.checkedAt.isSome) := by rw [keptRows, keptRows, h, hvalid]
    rw [hsame]
    exact keptRows_shape fun row hrow => (List.mem_filter.1 hrow).2

/-- Rows of one of the shapes are kept as they are. -/
theorem keptRows_of_shape {rows : List CheckRow} (h : Shape rows) : keptRows rows = rows := by
  cases h with
  | nil => rfl
  | failure l hl => simp [keptRows, coalesced, coalesceRow, Coalesced.rows, hl]
  | success s hs => simp [keptRows, coalesced, coalesceRow, Coalesced.rows, hs]
  | both s l hs hl hge =>
    have hne : s ≠ l := by
      rintro rfl
      rw [hs] at hl
      cases hl
    simp [keptRows, coalesced, coalesceRow, Coalesced.rows, hs, hl, hge, hne]

/-! ## All IPs -/

/-- The rows of an IP. -/
def rowsOf (rows : List CheckRow) (ip : String) : List CheckRow := rows.filter fun row => row.ip = ip

/-- The rows of an IP are those with its text. -/
theorem mem_rowsOf {rows : List CheckRow} {ip : String} {row : CheckRow} : row ∈ rowsOf rows ip ↔ row ∈ rows ∧ row.ip = ip := by
  rw [rowsOf, List.mem_filter, decide_eq_true_eq]

/-- The table of states has for each IP what its rows are coalesced to. -/
theorem get?_coalesceStates (rows : List CheckRow) (ip : String) :
    (coalesceStates rows).get? ip = coalesced (rowsOf rows ip) := by
  unfold coalesceStates
  rw [Table.get?_foldl_alter, Table.get?_empty]
  rfl

/-- Coalescing works IP by IP. -/
theorem rowsOf_coalesceCheckRows (rows : List CheckRow) (ip : String) :
    rowsOf (coalesceCheckRows rows) ip = keptRows (rowsOf rows ip) := by
  unfold rowsOf coalesceCheckRows
  rw [Table.filter_flatMap_entries, get?_coalesceStates]
  · rfl
  intro k state hstate row hrow
  rw [get?_coalesceStates] at hstate
  have hspec := isCoalesced _ hstate
  have hlatest := (mem_rowsOf.1 hspec.latest_mem).2
  unfold Coalesced.rows at hrow
  split at hrow
  · rw [List.mem_singleton.1 hrow]
    exact hlatest
  · rename_i s hs
    split at hrow
    · rw [List.mem_singleton.1 hrow]
      exact hlatest
    · rcases List.mem_cons.1 hrow with rfl | hrow
      · exact (mem_rowsOf.1 (hspec.success_mem _ hs).1).2
      · rw [List.mem_singleton.1 hrow]
        exact hlatest

/-- Rows of different IPs are kept as they are. -/
theorem coalesceCheckRows_of_nodup {rows : List CheckRow} (h : (rows.map (·.ip)).Nodup) : coalesceCheckRows rows = rows := by
  unfold coalesceCheckRows coalesceStates
  rw [Table.entries_foldl_alter (·.ip) coalesceRow h, List.flatMap_map]
  have hrow : ∀ row : CheckRow, (coalesceRow row none).rows = [row] := by
    intro row
    cases hok : row.ok <;> simp [coalesceRow, Coalesced.rows, hok]
  simp only [hrow, List.flatMap_singleton']

/-- What the pool update takes from the coalesced rows of an IP. -/
def uniqueOf (rows : List CheckRow) : Option UniqueRow := rows.foldl (fun state row => some (uniqueRow row state)) none

/-- The table `updatePoolBatch` groups the rows in. -/
def uniqueTable (rows : List CheckRow) : Table String UniqueRow :=
  (coalesceCheckRows rows).foldl (fun byIP row => byIP.alter row.ip fun state => some (uniqueRow row state)) Table.empty

/-- The table of entries has for each IP what its kept rows give. -/
theorem get?_uniqueTable (rows : List CheckRow) (ip : String) :
    (uniqueTable rows).get? ip = uniqueOf (keptRows (rowsOf rows ip)) := by
  unfold uniqueTable
  rw [Table.get?_foldl_alter, Table.get?_empty, ← rowsOf_coalesceCheckRows]
  rfl

theorem uniqueRows_eq (rows : List CheckRow) : uniqueRows rows = (uniqueTable rows).entries.map Prod.snd := rfl

/-- What is kept of an IP is among its rows. -/
theorem mem_keptRows {rows : List CheckRow} {row : CheckRow} (h : row ∈ keptRows rows) : row ∈ rows := by
  unfold keptRows at h
  cases hstate : coalesced rows with
  | none =>
    rw [hstate] at h
    cases h
  | some state =>
    rw [hstate, Option.map_some, Option.getD_some, Coalesced.rows] at h
    have hspec := isCoalesced rows hstate
    cases hs : state.latestSuccess with
    | none =>
      rw [hs] at h
      rw [List.mem_singleton.1 h]
      exact hspec.latest_mem
    | some s =>
      simp only [hs] at h
      split at h
      · rw [List.mem_singleton.1 h]
        exact hspec.latest_mem
      · rcases List.mem_cons.1 h with rfl | h
        · exact (hspec.success_mem _ hs).1
        · rw [List.mem_singleton.1 h]
          exact hspec.latest_mem

/-- Coalescing keeps a success where there was one. -/
theorem exists_ok_keptRows {rows : List CheckRow} {row : CheckRow} (h : row ∈ rows) (hok : row.ok = true) :
    ∃ s ∈ keptRows rows, s.ok = true := by
  unfold keptRows
  cases hstate : coalesced rows with
  | none =>
    rw [coalesced_eq_none.1 hstate] at h
    cases h
  | some state =>
    have hspec := isCoalesced rows hstate
    obtain ⟨s, hs⟩ := Option.ne_none_iff_exists'.1 (hspec.success_of_ok row h hok)
    refine ⟨s, ?_, (hspec.success_mem s hs).2⟩
    simp only [Option.map_some, Option.getD_some, Coalesced.rows, hs]
    split
    · rename_i heq
      simp [heq]
    · simp

/-- What a batch is coalesced to is among its rows. -/
theorem mem_coalesceCheckRows {rows : List CheckRow} {row : CheckRow} (h : row ∈ coalesceCheckRows rows) : row ∈ rows := by
  have hof : row ∈ rowsOf (coalesceCheckRows rows) row.ip := mem_rowsOf.2 ⟨h, rfl⟩
  rw [rowsOf_coalesceCheckRows] at hof
  exact (mem_rowsOf.1 (mem_keptRows hof)).1

/-- What the pool update takes from rows of an IP: the last of them, and a success where there is one. -/
structure IsUnique (rows : List CheckRow) (u : UniqueRow) : Prop where
  latest_mem : u.latest ∈ rows
  success_mem : ∀ s, u.success = some s → s ∈ rows ∧ s.ok = true
  success_of_ok : ∀ row ∈ rows, row.ok = true → u.success ≠ none

/-- One row more joins the entry of those before. -/
theorem uniqueOf_concat (rows : List CheckRow) (row : CheckRow) :
    uniqueOf (rows ++ [row]) = some (uniqueRow row (uniqueOf rows)) := by
  unfold uniqueOf
  rw [List.foldl_append]
  rfl

/-- No row, no entry. -/
theorem uniqueOf_eq_none {rows : List CheckRow} : uniqueOf rows = none ↔ rows = [] := by
  rcases List.eq_nil_or_concat rows with rfl | ⟨init, last, rfl⟩
  · exact ⟨fun _ => rfl, fun _ => rfl⟩
  · rw [List.concat_eq_append, uniqueOf_concat]
    simp

/-- The entry of a list of rows is what it should be. -/
theorem isUnique (rows : List CheckRow) {u : UniqueRow} (h : uniqueOf rows = some u) : IsUnique rows u := by
  induction rows using List.reverseRecOn generalizing u with
  | nil => cases h
  | append_singleton rows row ih =>
    rw [uniqueOf_concat] at h
    cases h
    have hrow : row ∈ rows ++ [row] := by simp
    cases hold : uniqueOf rows with
    | none =>
      obtain rfl := uniqueOf_eq_none.1 hold
      refine ⟨hrow, ?_, ?_⟩
      · intro s hs
        simp only [uniqueRow] at hs
        split at hs
        · cases hs
          exact ⟨hrow, ‹_›⟩
        · cases hs
      · intro r hr hok
        obtain rfl := List.mem_singleton.1 hr
        simp [uniqueRow, hok]
    | some old =>
      obtain ⟨-, hsuccess, hok⟩ := ih hold
      refine ⟨hrow, ?_, ?_⟩
      · intro s hs
        simp only [uniqueRow] at hs
        split at hs
        · cases hs
          exact ⟨hrow, ‹_›⟩
        · exact ⟨List.mem_append_left _ (hsuccess s hs).1, (hsuccess s hs).2⟩
      · intro r hr hrok
        simp only [uniqueRow]
        split
        · exact Option.some_ne_none _
        · rename_i hnot
          rcases List.mem_append.1 hr with hr | hr
          · exact hok r hr hrok
          · rw [List.mem_singleton.1 hr] at hrok
            exact absurd hrok hnot

/-- The entries of a batch are made of rows of their IP. -/
theorem mem_uniqueRows {rows : List CheckRow} {u : UniqueRow} (h : u ∈ uniqueRows rows) :
    uniqueOf (keptRows (rowsOf rows u.latest.ip)) = some u := by
  rw [uniqueRows_eq] at h
  obtain ⟨⟨ip, u'⟩, hm, rfl⟩ := List.mem_map.1 h
  have hget := (Table.mem_entries_iff _ _ _).1 hm
  rw [get?_uniqueTable] at hget
  have hip := (mem_rowsOf.1 (mem_keptRows (isUnique _ hget).latest_mem)).2
  rw [hip]
  exact hget

/-- Every IP of a batch has an entry. -/
theorem exists_mem_uniqueRows {rows : List CheckRow} {row : CheckRow} (h : row ∈ rows) (hok : row.ok = true) :
    ∃ u ∈ uniqueRows rows, u.latest.ip = row.ip ∧ u.success ≠ none := by
  obtain ⟨s, hs, hsok⟩ := exists_ok_keptRows (mem_rowsOf.2 ⟨h, rfl⟩) hok
  cases hu : uniqueOf (keptRows (rowsOf rows row.ip)) with
  | none =>
    rw [uniqueOf_eq_none.1 hu] at hs
    cases hs
  | some u =>
    have hspec := isUnique _ hu
    refine ⟨u, ?_, (mem_rowsOf.1 (mem_keptRows hspec.latest_mem)).2, hspec.success_of_ok s hs hsok⟩
    rw [uniqueRows_eq]
    exact List.mem_map.2 ⟨(row.ip, u), (Table.mem_entries_iff _ _ _).2 (by rw [get?_uniqueTable]; exact hu), rfl⟩

/-- The success of an entry is a success among the rows. -/
theorem success_of_mem_uniqueRows {rows : List CheckRow} {u : UniqueRow} (h : u ∈ uniqueRows rows) {s : CheckRow}
    (hs : u.success = some s) : s ∈ rows ∧ s.ok = true ∧ s.ip = u.latest.ip := by
  obtain ⟨hmem, hok⟩ := (isUnique _ (mem_uniqueRows h)).success_mem s hs
  obtain ⟨hrows, hip⟩ := mem_rowsOf.1 (mem_keptRows hmem)
  exact ⟨hrows, hok, hip⟩

end Gwsdb.Store
