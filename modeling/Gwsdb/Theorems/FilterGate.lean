import Gwsdb.Lib.Sieve
import Gwsdb.Lemmas.FilterRows

/-!
# The rows that pass the filter

`filterChecks` goes through the results and then through the checks with a set of the IPs recorded so far. So each row is decided
by what comes before its result or check (`filterChecks_eq`): the first result of each IP, then the first success of each other IP
and the failures of IPs that are known good, have a result, or had a success earlier in the list.
-/

namespace Gwsdb.Scan

open Sieve

/-! ## The two loops -/

/-- Whether an IP has a result. -/
def hasResult (results : List ScanResult) (ip : String) : Bool := results.any fun r => r.ip = ip

theorem hasResult_iff {results : List ScanResult} {ip : String} : hasResult results ip = true ↔ ∃ r ∈ results, r.ip = ip := by
  simp [hasResult]

/-- Whether a failure of an IP passes the gate after some checks: the IP is known good, has a result, or had a success. -/
def gate (results : List ScanResult) (knownGood : List String) (before : List IPCheck) (ip : String) : Bool :=
  decide (ip ∈ knownGood) || hasResult results ip || before.any fun d => d.ok && decide (d.ip = ip)

/-- Whether a check is a success of an IP without a result. -/
def logOnly (results : List ScanResult) (c : IPCheck) : Bool := c.ok && !hasResult results c.ip

/-- Whether a check is kept after some checks: the first success of an IP without a result, or a failure that passes the gate. -/
def kept (results : List ScanResult) (knownGood : List String) (before : List IPCheck) (c : IPCheck) : Bool :=
  if c.ok then first (logOnly results) (·.ip) before c else gate results knownGood before c.ip

/-- The loop over the results: the IPs recorded are theirs, and the rows are those of the first result of each. -/
theorem foldl_addResult (m : Seen) (now : Time) (results : List ScanResult) :
    (∀ ip, ip ∈ (results.foldl (addResult m now) ([], [])).1 ↔ ∃ r ∈ results, r.ip = ip) ∧
      (results.foldl (addResult m now) ([], [])).2 = (sift (first (fun _ => true) (·.ip)) results).map (resultRow m now) := by
  induction results using List.reverseRecOn with
  | nil => simp
  | append_singleton rs r ih =>
    rw [List.foldl_append, sift_concat, List.map_append]
    simp only [List.foldl_cons, List.foldl_nil, exists_mem_snoc]
    generalize rs.foldl (addResult m now) ([], []) = st at ih ⊢
    obtain ⟨recorded, rows⟩ := st
    obtain ⟨hips, hrows⟩ := ih
    simp only at hips hrows
    have hfirst : first (fun _ => true) (·.ip) rs r = true ↔ r.ip ∉ recorded := by
      rw [first_iff, hips]
      simp only [true_and]
    unfold addResult
    by_cases hr : r.ip ∈ recorded
    · rw [if_pos hr, if_neg (fun h => hfirst.1 h hr)]
      refine ⟨fun ip => ?_, by rw [hrows]; simp⟩
      rw [hips]
      exact ⟨Or.inl, fun h => h.elim id fun h => h ▸ (hips r.ip).1 hr⟩
    · rw [if_neg hr, if_pos (hfirst.2 hr)]
      refine ⟨fun ip => ?_, by rw [hrows]; simp⟩
      rw [List.mem_cons, hips, or_comm, eq_comm]

/-- The loop over the checks: the IPs recorded are those of the results and of the successes, and the rows are added
for the checks that are kept. -/
theorem foldl_addCheck (results : List ScanResult) (knownGood : List String) (now : Time) {st : List String × List IPCheck}
    (hst : ∀ ip, ip ∈ st.1 ↔ ∃ r ∈ results, r.ip = ip) (checks : List IPCheck) :
    (∀ ip, ip ∈ (checks.foldl (addCheck knownGood now) st).1 ↔
      (∃ r ∈ results, r.ip = ip) ∨ ∃ d ∈ checks, d.ok = true ∧ d.ip = ip) ∧
    (checks.foldl (addCheck knownGood now) st).2 = st.2 ++ (sift (kept results knownGood) checks).map (checkRow now) := by
  induction checks using List.reverseRecOn with
  | nil => simp [hst]
  | append_singleton cs c ih =>
    rw [List.foldl_append, sift_concat, List.map_append, ← List.append_assoc]
    simp only [List.foldl_cons, List.foldl_nil, exists_mem_snoc]
    generalize cs.foldl (addCheck knownGood now) st = st' at ih ⊢
    obtain ⟨recorded, rows⟩ := st'
    obtain ⟨hips, hrows⟩ := ih
    simp only at hips hrows
    unfold addCheck
    cases hok : c.ok with
    | true =>
      have hkept : kept results knownGood cs c = true ↔ c.ip ∉ recorded := by
        rw [kept, if_pos hok, first_iff, hips, logOnly, hok, Bool.true_and, Bool.not_eq_true',
          Bool.eq_false_iff, ne_eq, hasResult_iff,
          not_or]
        refine and_congr_right fun hnone => not_congr (exists_congr fun d => and_congr_right fun _ => ?_)
        rw [logOnly, Bool.and_eq_true, Bool.not_eq_true', Bool.eq_false_iff, ne_eq, hasResult_iff]
        exact ⟨fun h => ⟨h.1.1, h.2⟩, fun h => ⟨⟨h.1, h.2 ▸ hnone⟩, h.2⟩⟩
      simp only [if_true, true_and]
      by_cases hm : c.ip ∈ recorded
      · rw [if_pos hm, if_neg (fun h => hkept.1 h hm)]
        refine ⟨fun ip => ?_, by rw [hrows]; simp⟩
        rw [hips, ← or_assoc]
        exact ⟨Or.inl, fun h => h.elim id fun h => h ▸ (hips c.ip).1 hm⟩
      · rw [if_neg hm, if_pos (hkept.2 hm)]
        refine ⟨fun ip => ?_, by rw [hrows]; simp⟩
        rw [List.mem_cons, hips, or_comm, or_assoc, eq_comm (a := ip)]
    | false =>
      have hkept : kept results knownGood cs c = true ↔ ¬(c.ip ∉ recorded ∧ c.ip ∉ knownGood) := by
        simp only [kept, hok, Bool.false_eq_true, if_false, gate, Bool.or_eq_true, decide_eq_true_eq,
          hasResult_iff, List.any_eq_true,
          Bool.and_eq_true, hips, not_and_or, not_not, or_assoc]
        rw [or_comm, or_assoc]
      simp only [Bool.false_eq_true, if_false, false_and, or_false]
      by_cases hdrop : c.ip ∉ recorded ∧ c.ip ∉ knownGood
      · rw [if_pos hdrop, if_neg (fun h => hkept.1 h hdrop)]
        exact ⟨hips, by rw [hrows]; simp⟩
      · rw [if_neg hdrop, if_pos (hkept.2 hdrop)]
        exact ⟨hips, by rw [hrows]; simp⟩

/-- The rows: of the first result of each IP, and after them of the checks that are kept. -/
theorem filterChecks_eq (results : List ScanResult) (checks : List IPCheck) (knownGood : List String) (now : Time) :
    filterChecks results checks knownGood now =
      (sift (first (fun _ => true) (·.ip)) results).map (resultRow (seenOf checks) now) ++
        (sift (kept results knownGood) checks).map (checkRow now) := by
  obtain ⟨hips, hrows⟩ := foldl_addResult (seenOf checks) now results
  rw [filterChecks, (foldl_addCheck results knownGood now hips checks).2, hrows]

/-! ## Successes, failures and times -/

/-- The rows of results are one for each IP with a result. -/
theorem length_resultRows (m : Seen) (now : Time) (results : List ScanResult) (ip : String) :
    (((sift (first (fun _ => true) (·.ip)) results).map (resultRow m now)).filter fun row =>
      row.ok && decide (row.ip = ip)).length =
      if hasResult results ip then 1 else 0 := by
  have hrow : (fun row : IPCheck => row.ok && decide (row.ip = ip)) ∘ resultRow m now = fun r => decide (r.ip = ip) := rfl
  rw [List.filter_map, List.length_map, hrow, length_filter_first]
  simp [hasResult]

/-- The rows of successes are one for each IP with a success and without a result. -/
theorem length_successRows (results : List ScanResult) (knownGood : List String) (now : Time)
    (checks : List IPCheck) (ip : String) :
    (((sift (kept results knownGood) checks).map (checkRow now)).filter fun row => row.ok && decide (row.ip = ip)).length =
      if (∃ c ∈ checks, c.ok = true ∧ c.ip = ip) ∧ hasResult results ip = false then 1 else 0 := by
  have hrow : (fun row : IPCheck => row.ok && decide (row.ip = ip)) ∘ checkRow now = fun c => c.ok && decide (c.ip = ip) := rfl
  have hfirst : (sift (kept results knownGood) checks).filter (fun c => c.ok && decide (c.ip = ip)) =
      (sift (first (logOnly results) (·.ip)) checks).filter fun c => decide (c.ip = ip) := by
    rw [filter_sift, filter_sift]
    refine sift_congr fun before c _ => ?_
    cases hok : c.ok with
    | true => rw [kept, if_pos hok, Bool.true_and]
    | false => simp [first, logOnly, hok]
  have hiff : (∃ c ∈ checks, logOnly results c = true ∧ c.ip = ip) ↔
      (∃ c ∈ checks, c.ok = true ∧ c.ip = ip) ∧ hasResult results ip = false := by
    simp only [logOnly, Bool.and_eq_true, Bool.not_eq_true']
    constructor
    · rintro ⟨c, hc, ⟨hok, hnone⟩, rfl⟩
      exact ⟨⟨c, hc, hok, rfl⟩, hnone⟩
    · rintro ⟨⟨c, hc, hok, rfl⟩, hnone⟩
      exact ⟨c, hc, ⟨hok, hnone⟩, rfl⟩
  rw [List.filter_map, List.length_map, hrow, hfirst, length_filter_first, if_congr hiff rfl rfl]

/-- The failures among the rows are those of the failed checks that pass the gate where they stand. -/
theorem filter_failures (results : List ScanResult) (checks : List IPCheck) (knownGood : List String) (now : Time) :
    (filterChecks results checks knownGood now).filter (fun row => !row.ok) =
      (sift (fun before c => !c.ok && gate results knownGood before c.ip) checks).map (checkRow now) := by
  have hresults : ((sift (first (fun _ => true) (·.ip)) results).map (resultRow (seenOf checks) now)).filter
      (fun row => !row.ok) = [] := by
    refine List.filter_eq_nil_iff.2 fun row hrow => ?_
    obtain ⟨r, -, rfl⟩ := List.mem_map.1 hrow
    simp [resultRow]
  have hrow : (fun row : IPCheck => !row.ok) ∘ checkRow now = fun c => !c.ok := rfl
  rw [filterChecks_eq, List.filter_append, hresults, List.nil_append, List.filter_map, hrow, filter_sift]
  congr 1
  refine sift_congr fun before c _ => ?_
  cases hok : c.ok <;> simp [kept, hok]

/-- The maps hold times of dated checks. -/
theorem seenAt_ne_zero (checks : List IPCheck) {ip : String} {t : Time} (h : (seenOf checks).seenAt ip = some t) : t ≠ 0 := by
  rw [(seenOf_eq checks ip).1] at h
  obtain ⟨c, hc, rfl⟩ := Option.map_eq_some_iff.1 h
  have hdated := (mem_of_lastWith hc).2.1
  rw [datedSuccess, Bool.and_eq_true, decide_eq_true_eq] at hdated
  exact hdated.2

theorem checkedAt_ne_zero {results : List ScanResult} {checks : List IPCheck} {knownGood : List String}
    {now : Time} (hnow : now ≠ 0) :
    ∀ row ∈ filterChecks results checks knownGood now, row.checkedAt ≠ 0 := by
  intro row hrow
  rw [filterChecks_eq, List.mem_append] at hrow
  rcases hrow with hrow | hrow
  · obtain ⟨r, -, rfl⟩ := List.mem_map.1 hrow
    unfold resultRow
    cases hseen : (seenOf checks).seenAt r.ip with
    | none => exact hnow
    | some t => exact seenAt_ne_zero checks hseen
  · obtain ⟨c, -, rfl⟩ := List.mem_map.1 hrow
    unfold checkRow
    simp only
    split <;> assumption

/-! ## The main result -/

/-- `filterChecks` gates exactly: one success row for each IP with a result or a success, and no other; of the failed checks, in
their order, those of IPs that are known good, have a result, or had a success earlier; the rows of results first, those of the
first result of each IP in their order; and no row without a time. -/
theorem filter_gates_exactly (results : List ScanResult) (checks : List IPCheck) (knownGood : List String) (now : Time) :
    (∀ ip, ((filterChecks results checks knownGood now).filter fun row => row.ok && decide (row.ip = ip)).length =
      if (∃ r ∈ results, r.ip = ip) ∨ ∃ c ∈ checks, c.ok = true ∧ c.ip = ip then 1 else 0) ∧
    (filterChecks results checks knownGood now).filter (fun row => !row.ok) =
      (sift (fun before c => !c.ok && gate results knownGood before c.ip) checks).map (checkRow now) ∧
    (∃ rest, filterChecks results checks knownGood now =
        (sift (first (fun _ => true) (·.ip)) results).map (resultRow (seenOf checks) now) ++ rest ∧
      ∀ row ∈ rest, row.ok = true → hasResult results row.ip = false ∧ ∃ c ∈ checks, c.ok = true ∧ row = checkRow now c) ∧
    (now ≠ 0 → ∀ row ∈ filterChecks results checks knownGood now, row.checkedAt ≠ 0) := by
  refine ⟨fun ip => ?_, filter_failures results checks knownGood now, ⟨_, filterChecks_eq results checks knownGood now, ?_⟩,
    fun hnow => checkedAt_ne_zero hnow⟩
  · rw [filterChecks_eq, List.filter_append, List.length_append, length_resultRows, length_successRows,
      if_congr (or_congr hasResult_iff.symm Iff.rfl) rfl rfl]
    cases hasResult results ip <;> simp
  · intro row hrow hok
    obtain ⟨c, hc, rfl⟩ := List.mem_map.1 hrow
    obtain ⟨before, after, rfl, hkept⟩ := mem_sift.1 hc
    have hcok : c.ok = true := hok
    rw [kept, if_pos hcok, first_iff, logOnly, Bool.and_eq_true, Bool.not_eq_true'] at hkept
    exact ⟨hkept.1.2, c, by simp, hcok, rfl⟩

end Gwsdb.Scan
