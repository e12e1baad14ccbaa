import Gwsdb.Theorems.FilterGate

/-!
# Rows that are observations

A row submitted should be one of the checks of the flush. A failure is, but for an RTT, which it drops. The success row of an IP
is put together: its RTT is that of the IP's first success in the flush, and its time, reason and detail are the last ones noted.
So it is a check only if one of the IP's successes has all of these (`rows_observed_iff`); two successes of an IP that differ in
RTT and time make a row that no probe has seen (`mixed_row`).
-/

namespace Gwsdb.Scan

open Sieve

/-- The time of a check, or `now` when it has none. -/
def stamp (now : Time) (c : IPCheck) : Time := if c.checkedAt = 0 then now else c.checkedAt

/-- A row is the check, under another mode. -/
structure Observes (now : Time) (row c : IPCheck) : Prop where
  ip : row.ip = c.ip
  ok : row.ok = c.ok
  rttMs : row.rttMs = c.rttMs
  reason : row.reason = c.reason
  detail : row.detail = c.detail
  checkedAt : row.checkedAt = stamp now c

/-- The first success of an IP. -/
def firstSuccess (checks : List IPCheck) (ip : String) : Option IPCheck :=
  (checks.filter fun c => c.ok && decide (c.ip = ip)).head?

/-- The time of the last dated success of an IP. -/
def lastTime (checks : List IPCheck) (now : Time) (ip : String) : Time :=
  ((lastWith datedSuccess checks ip).map IPCheck.checkedAt).getD now

/-- The last reason of its dated successes. -/
def lastReason (checks : List IPCheck) (ip : String) : String :=
  ((lastWith (fun c => datedSuccess c && decide (c.reason ≠ "")) checks ip).map IPCheck.reason).getD ""

/-- The last detail of its dated successes. -/
def lastDetail (checks : List IPCheck) (ip : String) : String :=
  ((lastWith (fun c => datedSuccess c && decide (c.detail ≠ "")) checks ip).map IPCheck.detail).getD ""

/-- Of each IP with a success, one success has the RTT of the first, and the time, reason and detail last noted. -/
def OneSuccess (checks : List IPCheck) (now : Time) : Prop :=
  ∀ ip f, firstSuccess checks ip = some f → ∃ c ∈ checks, c.ok = true ∧ c.ip = ip ∧ c.rttMs = f.rttMs ∧
    c.reason = lastReason checks ip ∧ c.detail = lastDetail checks ip ∧ stamp now c = lastTime checks now ip

/-- The failures of known IPs and of IPs with a success have no RTT, or are repeated without one. -/
def PlainFailures (checks : List IPCheck) (knownGood : List String) (now : Time) : Prop :=
  ∀ c ∈ checks, c.ok = false → (c.ip ∈ knownGood ∨ ∃ d ∈ checks, d.ok = true ∧ d.ip = c.ip) →
    c.rttMs = 0 ∨ ∃ d ∈ checks, d.ok = false ∧ d.ip = c.ip ∧ d.rttMs = 0 ∧ d.reason = c.reason ∧ d.detail = c.detail ∧
      stamp now d = stamp now c

/-! ## The rows of a flush -/

/-- A check at the end is the first success when there was none. -/
theorem firstSuccess_concat (cs : List IPCheck) (c : IPCheck) (ip : String) :
    firstSuccess (cs ++ [c]) ip = (firstSuccess cs ip).or (if c.ok = true ∧ c.ip = ip then some c else none) := by
  unfold firstSuccess
  rw [List.filter_append, List.head?_append]
  by_cases h : c.ok = true ∧ c.ip = ip
  · rw [if_pos h]
    simp [h.1, h.2]
  · rw [if_neg h]
    have hnone : List.filter (fun c => c.ok && decide (c.ip = ip)) [c] = [] := by simpa using h
    rw [hnone]
    rfl

/-- There is none when no check of the IP succeeded. -/
theorem firstSuccess_eq_none {cs : List IPCheck} {ip : String} :
    firstSuccess cs ip = none ↔ ¬∃ c ∈ cs, c.ok = true ∧ c.ip = ip := by
  rw [firstSuccess, List.head?_eq_none_iff, List.filter_eq_nil_iff]
  simp

theorem result_eq_iff {r : ScanResult} {ip : String} {rtt : Int} : r = ⟨ip, rtt⟩ ↔ r.ip = ip ∧ r.rttMs = rtt := by
  cases r
  simp

/-- The results of a flush are the RTTs of the first successes, one for each IP. -/
theorem mem_resultsOf_iff (checks : List IPCheck) (r : ScanResult) :
    r ∈ resultsOf checks ↔ ∃ f, firstSuccess checks r.ip = some f ∧ r.rttMs = f.rttMs := by
  unfold resultsOf
  induction checks using List.reverseRecOn with
  | nil => simp [firstSuccess]
  | append_singleton cs c ih =>
    have hseen : c.ip ∈ (cs.foldl addSuccess ([], [])).1 ↔ firstSuccess cs c.ip ≠ none := by
      rw [(addSuccess_spec cs c.ip).1, ne_eq, firstSuccess_eq_none, not_not]
    rw [List.foldl_append, List.foldl_cons, List.foldl_nil, firstSuccess_concat]
    generalize cs.foldl addSuccess ([], []) = st at ih hseen ⊢
    obtain ⟨seen, rs⟩ := st
    simp only at ih hseen
    unfold addSuccess
    by_cases hnew : c.ok = true ∧ c.ip ∉ seen
    · obtain ⟨hok, hnone⟩ := hnew
      rw [hseen, not_not] at hnone
      rw [if_pos ⟨hok, fun h => hseen.1 h hnone⟩, List.mem_append, List.mem_singleton, ih]
      by_cases hip : c.ip = r.ip
      · rw [hip] at hnone
        rw [hnone, if_pos ⟨hok, hip⟩, result_eq_iff]
        simp [hip]
      · rw [if_neg fun h => hip h.2, Option.or_none, result_eq_iff]
        simp [Ne.symm hip]
    · rw [if_neg hnew, ih]
      by_cases hsame : c.ok = true ∧ c.ip = r.ip
      · obtain ⟨hok, hip⟩ := hsame
        have hearlier := hseen.1 (not_not.1 fun h => hnew ⟨hok, h⟩)
        rw [hip] at hearlier
        obtain ⟨f, hf⟩ := Option.ne_none_iff_exists'.1 hearlier
        rw [hf, Option.some_or]
      · rw [if_neg hsame, Option.or_none]

/-- An IP has a result when a check of it succeeded. -/
theorem hasResult_resultsOf {checks : List IPCheck} {ip : String} :
    hasResult (resultsOf checks) ip = true ↔ ∃ d ∈ checks, d.ok = true ∧ d.ip = ip := by
  rw [hasResult_iff, mem_resultsOf]

/-- The results among which no IP comes twice are all kept. -/
theorem mem_sift_resultsOf {checks : List IPCheck} {r : ScanResult} :
    r ∈ sift (first (fun _ => true) (·.ip)) (resultsOf checks) ↔ r ∈ resultsOf checks := by
  refine ⟨mem_of_mem_sift, fun hr => ?_⟩
  obtain ⟨r', hr', hip⟩ := @exists_mem_sift_first _ _ _ (fun _ => true) (fun r : ScanResult => r.ip) _ _ hr rfl
  obtain ⟨f, hf, hrtt⟩ := (mem_resultsOf_iff checks r).1 hr
  obtain ⟨f', hf', hrtt'⟩ := (mem_resultsOf_iff checks r').1 (mem_of_mem_sift hr')
  rw [hip, hf, Option.some.injEq] at hf'
  have heq : r = r' := result_eq_iff.2 ⟨hip.symm, by rw [hrtt, hrtt', hf']⟩
  rwa [heq]

/-- With the results of a flush, the checks kept are failures of known IPs and of IPs with a success. -/
theorem mem_sift_kept {checks : List IPCheck} {knownGood : List String} {c : IPCheck} :
    c ∈ sift (kept (resultsOf checks) knownGood) checks ↔
      c ∈ checks ∧ c.ok = false ∧ (c.ip ∈ knownGood ∨ ∃ d ∈ checks, d.ok = true ∧ d.ip = c.ip) := by
  have hgate : ∀ before, gate (resultsOf checks) knownGood before c.ip = true ↔
      c.ip ∈ knownGood ∨ (∃ d ∈ checks, d.ok = true ∧ d.ip = c.ip) ∨ ∃ d ∈ before, d.ok = true ∧ d.ip = c.ip := by
    intro before
    simp only [gate, Bool.or_eq_true, decide_eq_true_eq, hasResult_resultsOf, List.any_eq_true, Bool.and_eq_true, or_assoc]
  constructor
  · intro h
    obtain ⟨before, after, hsplit, hkept⟩ := mem_sift.1 h
    have hsub : ∀ d ∈ before, d ∈ checks := fun d hd => by rw [hsplit]; exact List.mem_append_left _ hd
    refine ⟨mem_of_mem_sift h, ?_⟩
    unfold kept at hkept
    split at hkept
    · rename_i hok
      have hlog := (first_iff.1 hkept).1
      rw [logOnly, Bool.and_eq_true, Bool.not_eq_true', Bool.eq_false_iff, ne_eq, hasResult_resultsOf] at hlog
      exact absurd ⟨c, mem_of_mem_sift h, hok, rfl⟩ hlog.2
    · rename_i hok
      refine ⟨Bool.eq_false_iff.2 hok, ?_⟩
      rcases (hgate before).1 hkept with hknown | hsuccess | ⟨d, hd, hdok⟩
      · exact Or.inl hknown
      · exact Or.inr hsuccess
      · exact Or.inr ⟨d, hsub d hd, hdok⟩
  · rintro ⟨hc, hok, hknown⟩
    obtain ⟨before, after, hsplit⟩ := List.append_of_mem hc
    refine mem_sift.2 ⟨before, after, hsplit, ?_⟩
    rw [kept, if_neg (Bool.eq_false_iff.1 hok)]
    exact (hgate before).2 (hknown.imp id Or.inl)

/-- The rows of a flush: one for the first success of each IP, with what was last noted of the IP, and one for each failure of a
known IP or of an IP with a success. -/
theorem mem_rowsOf_iff {cfg : Config} {checks : List IPCheck} {knownGood : List String} {now : Time} {row : IPCheck} :
    row ∈ rowsOf cfg checks knownGood now ↔
      (∃ ip f, firstSuccess checks ip = some f ∧
        row = { resultRow (seenOf checks) now ⟨ip, f.rttMs⟩ with scanMode := cfg.scanMode }) ∨
      ∃ c ∈ checks, c.ok = false ∧ (c.ip ∈ knownGood ∨ ∃ d ∈ checks, d.ok = true ∧ d.ip = c.ip) ∧
        row = { checkRow now c with scanMode := cfg.scanMode } := by
  rw [rowsOf, filterChecks_eq, List.map_append, List.mem_append, List.map_map, List.map_map, List.mem_map, List.mem_map]
  refine or_congr ?_ ?_
  · constructor
    · rintro ⟨r, hr, rfl⟩
      obtain ⟨f, hf, hrtt⟩ := (mem_resultsOf_iff checks r).1 (mem_sift_resultsOf.1 hr)
      refine ⟨r.ip, f, hf, ?_⟩
      rw [← hrtt]
      rfl
    · rintro ⟨ip, f, hf, rfl⟩
      exact ⟨⟨ip, f.rttMs⟩, mem_sift_resultsOf.2 ((mem_resultsOf_iff checks _).2 ⟨f, hf, rfl⟩), rfl⟩
  · constructor
    · rintro ⟨c, hc, rfl⟩
      obtain ⟨hmem, hok, hknown⟩ := mem_sift_kept.1 hc
      exact ⟨c, hmem, hok, hknown, rfl⟩
    · rintro ⟨c, hmem, hok, hknown, rfl⟩
      exact ⟨c, mem_sift_kept.2 ⟨hmem, hok, hknown⟩, rfl⟩

/-! ## The main result -/

/-- Every row a flush submits is one of its checks, exactly where one success of each IP has what its row is put together of, and
the failures that are submitted have no RTT. -/
theorem rows_observed_iff (cfg : Config) (checks : List IPCheck) (knownGood : List String) (now : Time) :
    (∀ row ∈ rowsOf cfg checks knownGood now, ∃ c ∈ checks, Observes now row c) ↔
      OneSuccess checks now ∧ PlainFailures checks knownGood now := by
  constructor
  · intro h
    constructor
    · intro ip f hf
      obtain ⟨c, hc, hobs⟩ := h _ (mem_rowsOf_iff.2 (Or.inl ⟨ip, f, hf, rfl⟩))
      obtain ⟨hseen, hdetail, hreason⟩ := seenOf_eq checks ip
      refine ⟨c, hc, hobs.ok.symm, hobs.ip.symm, hobs.rttMs.symm, ?_, ?_, ?_⟩
      · rw [← hobs.reason, lastReason, ← hreason]
        rfl
      · rw [← hobs.detail, lastDetail, ← hdetail]
        rfl
      · rw [← hobs.checkedAt, lastTime, ← hseen]
        rfl
    · intro c hc hok hknown
      obtain ⟨d, hd, hobs⟩ := h _ (mem_rowsOf_iff.2 (Or.inr ⟨c, hc, hok, hknown, rfl⟩))
      have hrtt : (checkRow now c).rttMs = 0 := if_neg (by rw [hok]; nofun)
      exact Or.inr ⟨d, hd, hobs.ok.symm.trans hok, hobs.ip.symm, hobs.rttMs.symm.trans hrtt, hobs.reason.symm, hobs.detail.symm,
        hobs.checkedAt.symm⟩
  · rintro ⟨hsuccess, hfailures⟩ row hrow
    rcases mem_rowsOf_iff.1 hrow with ⟨ip, f, hf, rfl⟩ | ⟨c, hc, hok, hknown, rfl⟩
    · obtain ⟨hseen, hdetail, hreason⟩ := seenOf_eq checks ip
      obtain ⟨c, hc, hcok, hip, hrtt, hcreason, hcdetail, htime⟩ := hsuccess ip f hf
      refine ⟨c, hc, hip.symm, hcok.symm, hrtt.symm, ?_, ?_, ?_⟩
      · rw [hcreason, lastReason, ← hreason]
        rfl
      · rw [hcdetail, lastDetail, ← hdetail]
        rfl
      · rw [htime, lastTime, ← hseen]
        rfl
    · have hrow : (checkRow now c).rttMs = 0 := if_neg (by rw [hok]; nofun)
      rcases hfailures c hc hok hknown with hrtt | ⟨d, hd, hdok, hip, hrtt, hreason, hdetail, htime⟩
      · exact ⟨c, hc, rfl, rfl, hrow.trans hrtt.symm, rfl, rfl, rfl⟩
      · exact ⟨d, hd, hip.symm, hok.trans hdok.symm, hrow.trans hrtt.symm, hreason.symm, hdetail.symm, htime.symm⟩

/-- A scan hit and a recheck hit of one IP in one flush. -/
def twoSuccesses : List IPCheck :=
  [⟨"192.0.2.1", true, 10, "scan:ok", "first", 1, "SNI"⟩, ⟨"192.0.2.1", true, 20, "recheck:ok", "second", 2, "SNI"⟩]

/-- They make one row with the RTT of the first and the time, reason and detail of the second. -/
theorem mixed_row : rowsOf ⟨"SNI", 0, 0⟩ twoSuccesses [] 3 = [⟨"192.0.2.1", true, 10, "recheck:ok", "second", 2, "SNI"⟩] ∧
    ¬∀ cfg checks knownGood now, ∀ row ∈ rowsOf cfg checks knownGood now, ∃ c ∈ checks, Observes now row c := by
  have hrow : rowsOf ⟨"SNI", 0, 0⟩ twoSuccesses [] 3 = [⟨"192.0.2.1", true, 10, "recheck:ok", "second", 2, "SNI"⟩] := by decide
  refine ⟨hrow, fun h => ?_⟩
  obtain ⟨c, hc, hobs⟩ := h ⟨"SNI", 0, 0⟩ twoSuccesses [] 3 _ (by rw [hrow]; exact List.mem_singleton_self _)
  have hrtt : ∀ c ∈ twoSuccesses, (10 : Int) = c.rttMs → "second" ≠ c.detail := by decide
  exact hrtt c hc hobs.rttMs hobs.detail

end Gwsdb.Scan
