import Gwsdb.Theorems.ProbeVerdict

/-!
# The verdict of several attempts

`mergeFailures` compares each failure with a reason that it overwrites on the way. It finds a disagreement exactly when some
failure has another reason than the first; so a verdict passes when all attempts pass, fails plainly when all fail alike, and is
mixed otherwise, in whatever order they came.
-/

namespace Gwsdb.Recheck

open Gwsdb.Scan (Result)

/-! ## The statements -/

/-- The results of the attempts of a probe. -/
def attemptResults (cfg : ScanConfig) (net : Nat → Attempt) : List Result :=
  (List.range (attemptCount cfg).toNat).map fun i => checkSNIOnce cfg (net i)

/-- All attempts pass. -/
def AllPass (results : List Result) : Prop := ∀ r ∈ results, r.ok = true

/-- All attempts fail, with one reason. -/
def FailAlike (results : List Result) (reason : String) : Prop := ∀ r ∈ results, r.ok = false ∧ r.reason = reason

/-- The verdict is a plain failure with a reason. -/
def PlainFailure (res : Result) (reason : String) : Prop := res.ok = false ∧ res.mixed = false ∧ res.reason = reason

/-- A number lies between the least and the greatest RTT of the attempts. -/
def BetweenRTTs (results : List Result) (rttMs : Int) : Prop :=
  ∃ least ∈ results, ∃ greatest ∈ results, (∀ r ∈ results, least.rttMs ≤ r.rttMs ∧ r.rttMs ≤ greatest.rttMs) ∧
    least.rttMs ≤ rttMs ∧ rttMs ≤ greatest.rttMs

/-- The verdict on results says what all of them say, and is mixed where they do not say the same. Their order does not matter. -/
structure ByConsensus (count : Int) (results : List Result) : Prop where
  passes : (verdict count results).ok = true ↔ AllPass results
  fails : ∀ reason, PlainFailure (verdict count results) reason ↔ FailAlike results reason
  mixed : (verdict count results).mixed = true ↔ ¬AllPass results ∧ ¬∃ reason, FailAlike results reason
  order : ∀ results', results'.Perm results → (verdict count results').ok = (verdict count results).ok ∧
    (verdict count results').mixed = (verdict count results).mixed ∧
      ∀ reason, PlainFailure (verdict count results') reason ↔ PlainFailure (verdict count results) reason
  rtt : (verdict count results).ok = true → BetweenRTTs results (verdict count results).rttMs

/-! ## The failures -/

/-- One round of the loop of `mergeFailures`. -/
def agree (st : String × Bool) (f : Result) : String × Bool := if f.reason ≠ st.1 then ("mixed", true) else st

/-- A disagreement that was found stays. -/
theorem foldl_agree_true (failures : List Result) (reason : String) : (failures.foldl agree (reason, true)).2 = true := by
  induction failures generalizing reason with
  | nil => rfl
  | cons f failures ih =>
    rw [List.foldl_cons, agree]
    split
    · exact ih "mixed"
    · exact ih reason

/-- Until then the reason is that of the first failure. -/
theorem foldl_agree_same {failures : List Result} {reason : String} (h : ∀ f ∈ failures, f.reason = reason) :
    failures.foldl agree (reason, false) = (reason, false) := by
  induction failures with
  | nil => rfl
  | cons f failures ih =>
    obtain ⟨hf, hrest⟩ := List.forall_mem_cons.1 h
    rw [List.foldl_cons, agree, if_neg (not_not.2 hf)]
    exact ih hrest

/-- The failures agree when each has the first one's reason. -/
theorem foldl_agree_iff {failures : List Result} {reason : String} :
    (failures.foldl agree (reason, false)).2 = false ↔ ∀ f ∈ failures, f.reason = reason := by
  refine ⟨fun h => ?_, fun h => by rw [foldl_agree_same h]⟩
  induction failures with
  | nil => exact fun f hf => absurd hf List.not_mem_nil
  | cons f failures ih =>
    rw [List.foldl_cons, agree] at h
    split at h
    · rw [foldl_agree_true] at h
      cases h
    · rename_i hf
      exact List.forall_mem_cons.2 ⟨not_not.1 hf, ih h⟩

/-- Merged failures are not mixed when all attempts failed alike. -/
theorem mergeFailures_mixed {f : Result} {failures : List Result} {total : Int} :
    (mergeFailures (f :: failures) total).mixed = false ↔
      total ≤ (f :: failures).length ∧ ∀ f' ∈ f :: failures, f'.reason = f.reason := by
  rw [← foldl_agree_iff, ← not_lt, ← decide_eq_false_iff_not, ← Bool.or_eq_false_iff]
  rfl

/-- Failures alike are merged to their reason. -/
theorem mergeFailures_reason {f : Result} {failures : List Result} {total : Int}
    (h : ∀ f' ∈ f :: failures, f'.reason = f.reason) :
    (mergeFailures (f :: failures) total).reason = f.reason :=
  congrArg Prod.fst (foldl_agree_same h)

/-! ## The verdict -/

/-- Passes alone are not mixed. -/
theorem verdict_of_allPass {count : Int} {results : List Result} (h : AllPass results) :
    (verdict count results).mixed = false := by
  have hnone : results.filter (!·.ok) = [] := by
    rw [List.filter_eq_nil_iff]
    intro r hr
    simp [h r hr]
  unfold verdict
  simp only [(foldl_add results _).1, hnone, List.nil_append, List.length_nil, lt_self_iff_false, if_false]

/-- Where some attempt fails, the verdict is that on the failures. -/
theorem verdict_of_failure {count : Int} {results : List Result} (h : ¬AllPass results) :
    ∃ f failures, results.filter (!·.ok) = f :: failures ∧ verdict count results = mergeFailures (f :: failures) count := by
  cases hfilter : results.filter (!·.ok) with
  | nil =>
    rw [List.filter_eq_nil_iff] at hfilter
    exact absurd (fun r hr => by simpa using hfilter r hr) h
  | cons f failures =>
    refine ⟨f, failures, rfl, ?_⟩
    unfold verdict
    simp only [(foldl_add results _).1, hfilter, List.nil_append]
    exact if_pos (Nat.succ_pos failures.length)

/-- The failures are as many as the results exactly when all fail. -/
theorem length_failures {results : List Result} :
    results.length ≤ (results.filter (!·.ok)).length ↔ ∀ r ∈ results, r.ok = false := by
  constructor
  · intro h r hr
    have hall := List.length_filter_eq_length_iff.1 (le_antisymm (List.length_filter_le _ results) h) r hr
    simpa using hall
  · intro h
    exact (List.length_filter_eq_length_iff.2 fun r hr => by simp [h r hr]).ge

/-- A verdict is a plain failure exactly when all attempts fail alike. -/
theorem verdict_plain {count : Int} {results : List Result} (hlength : results.length = count)
    (hne : results ≠ []) (reason : String) :
    PlainFailure (verdict count results) reason ↔ FailAlike results reason := by
  by_cases hpass : AllPass results
  · obtain ⟨r, hr⟩ := List.exists_mem_of_ne_nil results hne
    constructor
    · rintro ⟨hok, -, -⟩
      rw [verdict_ok.2 hpass] at hok
      cases hok
    · intro hfail
      have hok := hpass r hr
      rw [(hfail r hr).1] at hok
      cases hok
  · obtain ⟨f, failures, hfailures, hverdict⟩ := @verdict_of_failure count results hpass
    have hsome : ∀ {r}, r ∈ f :: failures ↔ r ∈ results ∧ r.ok = false := by
      intro r
      rw [← hfailures, List.mem_filter]
      simp
    constructor
    · rintro ⟨-, hmixed, hreason⟩
      rw [hverdict, mergeFailures_mixed, ← hfailures, ← hlength, Nat.cast_le, length_failures, hfailures] at hmixed
      obtain ⟨hfail, hsame⟩ := hmixed
      rw [hverdict, mergeFailures_reason hsame] at hreason
      intro r hr
      exact ⟨hfail r hr, (hsame r (hsome.2 ⟨hr, hfail r hr⟩)).trans hreason⟩
    · intro hfail
      have hsame : ∀ f' ∈ f :: failures, f'.reason = f.reason := fun f' hf' => by
        rw [(hfail f' (hsome.1 hf').1).2, (hfail f (hsome.1 List.mem_cons_self).1).2]
      rw [hverdict]
      refine ⟨rfl, mergeFailures_mixed.2 ⟨?_, hsame⟩, ?_⟩
      · rw [← hfailures, ← hlength, Nat.cast_le, length_failures]
        exact fun r hr => (hfail r hr).1
      · rw [mergeFailures_reason hsame]
        exact (hfail f (hsome.1 List.mem_cons_self).1).2

/-- A verdict is mixed when neither all pass nor all fail alike. -/
theorem verdict_mixed {count : Int} {results : List Result} (hlength : results.length = count) (hne : results ≠ []) :
    (verdict count results).mixed = true ↔ ¬AllPass results ∧ ¬∃ reason, FailAlike results reason := by
  constructor
  · intro hmixed
    refine ⟨fun hpass => ?_, fun ⟨reason, hfail⟩ => ?_⟩
    · rw [verdict_of_allPass hpass] at hmixed
      cases hmixed
    · obtain ⟨-, hplain, -⟩ := (verdict_plain hlength hne reason).2 hfail
      rw [hplain] at hmixed
      cases hmixed
  · rintro ⟨hpass, hfail⟩
    by_contra hmixed
    have hok := Bool.eq_false_iff.2 (mt (@verdict_ok count results).1 hpass)
    exact hfail ⟨_, (verdict_plain hlength hne _).1 ⟨hok, Bool.eq_false_iff.2 hmixed, rfl⟩⟩

/-- All pass in any order. -/
theorem allPass_perm {results results' : List Result} (h : results'.Perm results) : AllPass results' ↔ AllPass results :=
  forall_congr' fun _ => imp_congr h.mem_iff Iff.rfl

/-- All fail alike in any order. -/
theorem failAlike_perm {results results' : List Result} (h : results'.Perm results) (reason : String) :
    FailAlike results' reason ↔ FailAlike results reason :=
  forall_congr' fun _ => imp_congr h.mem_iff Iff.rfl

/-- The RTT of a verdict that passes lies between those of its attempts. -/
theorem verdict_betweenRTTs {count : Int} {results : List Result} (hcount : 0 < count) (hlength : results.length = count)
    (hne : results ≠ []) (hok : (verdict count results).ok = true) : BetweenRTTs results (verdict count results).rttMs := by
  have hsome : results.toFinset.Nonempty := (List.toFinset_nonempty_iff results).2 hne
  obtain ⟨least, hleast, hleast_le⟩ := Finset.exists_min_image _ (fun r : Result => r.rttMs) hsome
  obtain ⟨greatest, hgreatest, hle_greatest⟩ := Finset.exists_max_image _ (fun r : Result => r.rttMs) hsome
  simp only [List.mem_toFinset] at hleast hleast_le hgreatest hle_greatest
  have hbounds : ∀ r ∈ results, least.rttMs ≤ r.rttMs ∧ r.rttMs ≤ greatest.rttMs := fun r hr =>
    ⟨hleast_le r hr, hle_greatest r hr⟩
  exact ⟨least, hleast, greatest, hgreatest, hbounds, verdict_rtt hcount hlength (verdict_ok.1 hok) hbounds⟩

/-- The verdict is the consensus of the attempts. -/
theorem byConsensus {count : Int} {results : List Result} (hcount : 0 < count) (hlength : results.length = count) :
    ByConsensus count results := by
  have hnonempty : ∀ {results : List Result}, (results.length : Int) = count → results ≠ [] := by
    rintro _ hlength rfl
    rw [List.length_nil] at hlength
    omega
  have hne := hnonempty hlength
  refine ⟨verdict_ok, verdict_plain hlength hne, verdict_mixed hlength hne, fun results' hperm => ?_,
    verdict_betweenRTTs hcount hlength hne⟩
  have hlength' : (results'.length : Int) = count := by rw [hperm.length_eq, hlength]
  have hne' := hnonempty hlength'
  refine ⟨?_, ?_, fun reason => ?_⟩
  · rw [Bool.eq_iff_iff, verdict_ok, verdict_ok]
    exact allPass_perm hperm
  · rw [Bool.eq_iff_iff, verdict_mixed hlength' hne', verdict_mixed hlength hne, allPass_perm hperm]
    simp only [failAlike_perm hperm]
  · rw [verdict_plain hlength' hne', verdict_plain hlength hne]
    exact failAlike_perm hperm reason

/-- There are as many results as attempts. -/
theorem length_attemptResults (cfg : ScanConfig) (net : Nat → Attempt) :
    ((attemptResults cfg net).length : Int) = max cfg.scanCountPerIP 1 := by
  rw [attemptResults, List.length_map, List.length_range, Int.toNat_of_nonneg (attemptCount_pos cfg).le]
  rfl

/-- A probe runs as many attempts as configured, at least one, and its verdict is the consensus of their
results, whatever they are. -/
theorem consensus (cfg : ScanConfig) :
    (∀ net, checkSNIMulti cfg net = verdict (attemptCount cfg) (attemptResults cfg net) ∧
      ((attemptResults cfg net).length : Int) = max cfg.scanCountPerIP 1) ∧
    ∀ results : List Result, (results.length : Int) = max cfg.scanCountPerIP 1 → ByConsensus (attemptCount cfg) results :=
  ⟨fun net => ⟨rfl, length_attemptResults cfg net⟩, fun _ hlength => byConsensus (attemptCount_pos cfg) hlength⟩

end Gwsdb.Recheck
