import Gwsdb.Lemmas.Coalesce

/-!
# What coalescing keeps

Of the checks of an IP, `coalesceCheckRows` keeps the last one of the greatest date, and before a failure the last success of the
greatest date among the successes. The rows are objects here, as in the code, which compares them by identity: an object is named
by a reference, and its row is `row r`.
-/

namespace Gwsdb.Store

open Keyed (Table)

variable {Ref : Type} (row : Ref → CheckRow)

/-! ## What is kept -/

/-- What is kept of the objects of an IP: the last of the latest; where that is a failure and there are successes, the last of the
latest successes before it. -/
inductive IsKept (l : List Ref) : List Ref → Prop
  | single {x : Ref} (latest : LastLatest row l x) (alone : (row x).ok = true ∨ ∀ y ∈ l, (row y).ok = false) : IsKept l [x]
  | both {s x : Ref} (latest : LastLatest row l x) (failed : (row x).ok = false)
      (success : LastLatest row (l.filter fun y => (row y).ok) s) : IsKept l [s, x]

variable {row}

/-- What is kept was there. -/
theorem IsKept.subset {l kept : List Ref} (h : IsKept row l kept) : ∀ r ∈ kept, r ∈ l := by
  cases h with
  | single latest alone =>
    intro r hr
    rw [List.mem_singleton.1 hr]
    exact latest.mem
  | both latest failed success =>
    intro r hr
    rcases List.mem_cons.1 hr with rfl | hr
    · exact (List.mem_filter.1 success.mem).1
    · rw [List.mem_singleton.1 hr]
      exact latest.mem

/-- Something is kept. -/
theorem IsKept.ne_nil {l kept : List Ref} (h : IsKept row l kept) : kept ≠ [] := by
  cases h <;> exact List.cons_ne_nil _ _

/-! ## The objects of an IP -/

/-- The objects of an IP. -/
def refsOf (row : Ref → CheckRow) (refs : List Ref) (ip : String) : List Ref := refs.filter fun r => (row r).ip = ip

/-- The references of an IP are those of rows with it. -/
theorem mem_refsOf {refs : List Ref} {ip : String} {r : Ref} : r ∈ refsOf row refs ip ↔ r ∈ refs ∧ (row r).ip = ip := by
  rw [refsOf, List.mem_filter, decide_eq_true_eq]

/-- The IPs of a list, in the order in which they first come. -/
def ipsOf (row : Ref → CheckRow) (refs : List Ref) : List String := (refs.map fun r => (row r).ip).eraseDups

/-- No IP is listed twice. -/
theorem nodup_ipsOf (refs : List Ref) : (ipsOf row refs).Nodup := Table.nodup_eraseDups _

/-- An IP is listed when it has a reference. -/
theorem mem_ipsOf {refs : List Ref} {ip : String} : ip ∈ ipsOf row refs ↔ refsOf row refs ip ≠ [] := by
  rw [ipsOf, List.mem_eraseDups, List.mem_map, refsOf, ne_eq, List.filter_eq_nil_iff]
  simp

theorem eraseDups_of_forall_eq {l : List String} {a : String} (hl : l ≠ []) (h : ∀ b ∈ l, b = a) : l.eraseDups = [a] := by
  cases l with
  | nil => exact absurd rfl hl
  | cons b l =>
    obtain rfl := h b List.mem_cons_self
    have hrest : l.filter (fun c => !c == b) = [] :=
      List.filter_eq_nil_iff.2 fun c hc => by simp [h c (List.mem_cons_of_mem _ hc)]
    rw [List.eraseDups_cons, hrest, List.eraseDups_nil]

section
variable {ips : List String} {kept : String → List Ref}

/-- Lists of one IP each, put together, have those IPs in their order. -/
theorem ipsOf_flatMap (hips : ips.Nodup) (hne : ∀ ip ∈ ips, kept ip ≠ []) (hof : ∀ ip ∈ ips, ∀ r ∈ kept ip, (row r).ip = ip) :
    ipsOf row (ips.flatMap kept) = ips := by
  unfold ipsOf
  induction ips with
  | nil => rfl
  | cons ip ips ih =>
    obtain ⟨hnotin, hips⟩ := List.nodup_cons.1 hips
    have hrest := ih hips (fun ip hm => hne ip (List.mem_cons_of_mem _ hm)) fun ip hm => hof ip (List.mem_cons_of_mem _ hm)
    have hself : ∀ b ∈ (kept ip).map fun r => (row r).ip, b = ip := by
      intro b hb
      obtain ⟨r, hr, rfl⟩ := List.mem_map.1 hb
      exact hof ip List.mem_cons_self r hr
    have hfirst : ((kept ip).map fun r => (row r).ip).eraseDups = [ip] :=
      eraseDups_of_forall_eq (mt List.map_eq_nil_iff.1 (hne ip List.mem_cons_self)) hself
    have hothers : ((ips.flatMap kept).map fun r => (row r).ip).removeAll ((kept ip).map fun r => (row r).ip) =
        (ips.flatMap kept).map fun r => (row r).ip := by
      refine List.filter_eq_self.2 fun ip' hm => ?_
      obtain ⟨r, hr, rfl⟩ := List.mem_map.1 hm
      obtain ⟨ip'', hip, hr⟩ := List.mem_flatMap.1 hr
      rw [Bool.not_eq_true', List.elem_eq_mem, decide_eq_false_iff_not]
      intro hin
      rw [hof ip'' (List.mem_cons_of_mem _ hip) r hr] at hin
      exact hnotin (hself ip'' hin ▸ hip)
    rw [List.flatMap_cons, List.map_append, List.eraseDups_append, hfirst, hothers, hrest, List.singleton_append]

/-- Of lists of one IP each, put together, what belongs to an IP is its list. -/
theorem refsOf_flatMap (hips : ips.Nodup) (hof : ∀ ip ∈ ips, ∀ r ∈ kept ip, (row r).ip = ip) {ip : String} (h : ip ∈ ips) :
    refsOf row (ips.flatMap kept) ip = kept ip := by
  unfold refsOf
  induction ips with
  | nil => cases h
  | cons ip' ips ih =>
    obtain ⟨hnotin, hips⟩ := List.nodup_cons.1 hips
    have hof' : ∀ ip ∈ ips, ∀ r ∈ kept ip, (row r).ip = ip := fun ip hm => hof ip (List.mem_cons_of_mem _ hm)
    rw [List.flatMap_cons, List.filter_append]
    by_cases heq : ip' = ip
    · subst heq
      have hall : (kept ip').filter (fun r => (row r).ip = ip') = kept ip' :=
        List.filter_eq_self.2 fun r hr => decide_eq_true (hof ip' List.mem_cons_self r hr)
      have hnone : (ips.flatMap kept).filter (fun r => (row r).ip = ip') = [] := by
        refine List.filter_eq_nil_iff.2 fun r hr => ?_
        obtain ⟨ip'', hip, hr⟩ := List.mem_flatMap.1 hr
        rw [hof' ip'' hip r hr, decide_eq_true_eq]
        exact fun heq => hnotin (heq ▸ hip)
      rw [hall, hnone, List.append_nil]
    · have hnone : (kept ip').filter (fun r => (row r).ip = ip) = [] := by
        refine List.filter_eq_nil_iff.2 fun r hr => ?_
        rw [hof ip' List.mem_cons_self r hr, decide_eq_true_eq]
        exact heq
      rw [hnone, List.nil_append]
      exact ih hips hof' ((List.mem_cons.1 h).resolve_left (Ne.symm heq))

end

/-! ## One IP -/

variable [DecidableEq Ref]

/-- The objects kept of an IP, from all its objects. -/
def keptRefs (row : Ref → CheckRow) (l : List Ref) : List Ref := ((coalescedRefs row l).map CoalescedRefs.refs).getD []

/-- What the function keeps of an IP is what is to be kept. -/
theorem isKept_keptRefs {l : List Ref} (hl : l ≠ []) (hdates : ∀ r ∈ l, (row r).checkedAt.isSome) :
    IsKept row l (keptRefs row l) := by
  obtain ⟨state, hstate⟩ := Option.ne_none_iff_exists'.1 (mt coalescedRefs_eq_none.1 hl)
  have hspec := isState hdates hstate
  rw [keptRefs, hstate, Option.map_some, Option.getD_some, CoalescedRefs.refs]
  cases hs : state.latestSuccess with
  | none => exact IsKept.single hspec.latest (Or.inr (hspec.failures hs))
  | some s =>
    simp only
    cases hok : (row state.latest).ok with
    | true =>
      have heq := hspec.same hok
      rw [hs, Option.some.injEq] at heq
      rw [if_pos heq]
      exact IsKept.single hspec.latest (Or.inl hok)
    | false =>
      have hsok := (List.mem_filter.1 (hspec.success s hs).mem).2
      have hne : s ≠ state.latest := by
        rintro rfl
        rw [hok] at hsok
        cases hsok
      rw [if_neg hne]
      exact IsKept.both hspec.latest hok (hspec.success s hs)

/-- What is kept of an IP is kept again. -/
theorem keptRefs_of_isKept {l kept : List Ref} (h : IsKept row l kept) (hdates : ∀ r ∈ l, (row r).checkedAt.isSome) :
    keptRefs row kept = kept := by
  cases h with
  | @single x latest alone =>
    cases hok : (row x).ok <;> simp [keptRefs, coalescedRefs, coalesceRef, CoalescedRefs.refs, hok]
  | @both s x latest failed success =>
    obtain ⟨hs, hsok⟩ := List.mem_filter.1 success.mem
    have hge := latest.ge hdates s hs
    have hne : s ≠ x := by
      rintro rfl
      rw [failed] at hsok
      cases hsok
    simp [keptRefs, coalescedRefs, coalesceRef, CoalescedRefs.refs, hsok, failed, hge, hne]

/-! ## All IPs -/

/-- Coalescing works IP by IP, in the order in which the IPs first come. -/
theorem coalesceRefs_eq (refs : List Ref) :
    coalesceRefs row refs = (ipsOf row refs).flatMap fun ip => keptRefs row (refsOf row refs ip) := by
  unfold coalesceRefs
  rw [Table.flatMap_entries, Table.keys_foldl_alter (fun r => (row r).ip) (coalesceRef row)]
  refine List.flatMap_congr fun ip _ => ?_
  rw [Table.get?_foldl_alter, Table.get?_empty]
  rfl

/-! ## Objects and rows -/

/-- The rows kept of an IP are those of the objects kept: two objects that are kept are a success and a
failure, so their rows differ. -/
theorem map_keptRefs {l : List Ref} (hdates : ∀ r ∈ l, (row r).checkedAt.isSome) :
    (keptRefs row l).map row = keptRows (l.map row) := by
  rw [keptRefs, keptRows, coalesced_map]
  cases hstate : coalescedRefs row l with
  | none => rfl
  | some state =>
    have hspec := isState hdates hstate
    simp only [Option.map_some, Option.getD_some, CoalescedRefs.refs, Coalesced.rows]
    cases hs : state.latestSuccess with
    | none => rfl
    | some s =>
      have hsok := (List.mem_filter.1 (hspec.success s hs).mem).2
      simp only [Option.map_some]
      by_cases heq : s = state.latest
      · rw [if_pos heq, if_pos (congrArg row heq)]
        rfl
      · have hne : row s ≠ row state.latest := by
          intro hrow
          rw [hrow] at hsok
          have hsame := hspec.same hsok
          rw [hs, Option.some.injEq] at hsame
          exact heq hsame
        rw [if_neg heq, if_neg hne]
        rfl

/-- The rows of the objects kept are the rows that `coalesceCheckRows` keeps. -/
theorem map_coalesceRefs {refs : List Ref} (hdates : ∀ r ∈ refs, (row r).checkedAt.isSome) :
    (coalesceRefs row refs).map row = coalesceCheckRows (refs.map row) := by
  have hips : (coalesceStates (refs.map row)).keys = ipsOf row refs := by
    unfold coalesceStates
    rw [Table.keys_foldl_alter (fun row : CheckRow => row.ip) coalesceRow, List.map_map]
    rfl
  rw [coalesceRefs_eq, coalesceCheckRows, Table.flatMap_entries, hips, List.map_flatMap]
  refine List.flatMap_congr fun ip _ => ?_
  rw [map_keptRefs fun r hr => hdates r (mem_refsOf.1 hr).1, get?_coalesceStates, rowsOf, refsOf, List.filter_map]
  rfl

/-! ## The main result -/

/-- Of objects whose rows have valid dates `coalesceCheckRows` keeps of each IP, in the order in which the IPs first come, the
last of the latest, and before a failure the last of the latest successes where there is one. What is kept is kept again. -/
theorem coalesce_exact {refs : List Ref} (hdates : ∀ r ∈ refs, (row r).checkedAt.isSome) :
    (∃ kept : String → List Ref, (∀ ip ∈ ipsOf row refs, IsKept row (refsOf row refs ip) (kept ip)) ∧
      coalesceRefs row refs = (ipsOf row refs).flatMap kept) ∧
    coalesceRefs row (coalesceRefs row refs) = coalesceRefs row refs ∧
    (coalesceRefs row refs).map row = coalesceCheckRows (refs.map row) := by
  have hdatesOf : ∀ ip, ∀ r ∈ refsOf row refs ip, (row r).checkedAt.isSome := fun ip r hr => hdates r (mem_refsOf.1 hr).1
  have hkept : ∀ ip ∈ ipsOf row refs, IsKept row (refsOf row refs ip) (keptRefs row (refsOf row refs ip)) :=
    fun ip hip => isKept_keptRefs (mem_ipsOf.1 hip) (hdatesOf ip)
  refine ⟨⟨_, hkept, coalesceRefs_eq refs⟩, ?_, map_coalesceRefs hdates⟩
  have hof : ∀ ip ∈ ipsOf row refs, ∀ r ∈ keptRefs row (refsOf row refs ip), (row r).ip = ip :=
    fun ip hip r hr => (mem_refsOf.1 ((hkept ip hip).subset r hr)).2
  have hips := ipsOf_flatMap (nodup_ipsOf refs) (fun ip hip => (hkept ip hip).ne_nil) hof
  rw [coalesceRefs_eq (coalesceRefs row refs), coalesceRefs_eq refs, hips]
  refine List.flatMap_congr fun ip hip => ?_
  rw [refsOf_flatMap (nodup_ipsOf refs) hof hip]
  exact keptRefs_of_isKept (hkept ip hip) (hdatesOf ip)

/-- A success, and a failure of the same date after it. -/
def tiedRow (failed : Bool) : CheckRow := ⟨"192.0.2.1", !failed, none, none, none, some 0, .text "SNI"⟩

/-- Of a success and a failure of one date the failure is the latest, and the success is kept before it. -/
theorem coalesce_exact_tied :
    (∃ kept : String → List Bool, (∀ ip ∈ ipsOf tiedRow [false, true],
      IsKept tiedRow (refsOf tiedRow [false, true] ip) (kept ip)) ∧
      coalesceRefs tiedRow [false, true] = (ipsOf tiedRow [false, true]).flatMap kept) ∧
    coalesceRefs tiedRow (coalesceRefs tiedRow [false, true]) = coalesceRefs tiedRow [false, true] ∧
    (coalesceRefs tiedRow [false, true]).map tiedRow = coalesceCheckRows ([false, true].map tiedRow) :=
  coalesce_exact fun _ _ => rfl

end Gwsdb.Store
