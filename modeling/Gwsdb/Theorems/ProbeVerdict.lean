import Gwsdb.Recheck.Sni
import Mathlib.Tactic

/-!
# What a passed probe says

`checkSNIMulti` passes when none of its attempts fails, and an attempt passes when none of its passes over a server name fails. So
with a server name every attempt reached a server (`probed_iff`), and without one every attempt passes. The gate bounds the time
of each pass, while the result adds the times of the passes of an attempt up; the bounds hold for every run exactly when they do
for as many passes as there are server names (`rtt_in_range_iff`).
-/

namespace Gwsdb.Recheck

open Gwsdb.Scan (Result)

/-! ## The statements -/

/-- The pass dialled, completed its handshake, and passed the check of the certificate and that of the status code
where the level asks for them. -/
structure Pass.Served (cfg : ScanConfig) (p : Pass) : Prop where
  dialled : p.dial = none
  handshaken : p.handshake = none
  certificate : 1 < cfg.level → p.peerCertificates.head? = some cfg.verifyCommonName
  status : 2 < cfg.level → p.newRequest = none ∧ p.response = .ok cfg.validStatusCode

/-- In each attempt the pass over some server name was served. -/
def Probed (cfg : ScanConfig) (net : Nat → Attempt) : Prop :=
  ∀ i : Nat, (i : Int) < attemptCount cfg → ∃ j : Nat, ∃ name, cfg.serverName[j]? = some name ∧ ((net i).pass j).Served cfg

/-- The RTT of a result lies within the configured bounds. -/
def InRange (cfg : ScanConfig) (res : Result) : Prop := cfg.scanMinRTT ≤ res.rttMs ∧ res.rttMs ≤ cfg.scanMaxRTT

/-- The least time that the gate lets through. -/
def leastPass (cfg : ScanConfig) : Int := max 0 (ofMillis cfg.scanMinRTT)

/-- The greatest time that the gate lets through. -/
def greatestPass (cfg : ScanConfig) : Int := ofMillis cfg.scanMaxRTT

/-- The gate lets no pass of a server name through, or the bounds hold for the sum of as many passes as there are server names, at
the least and at the greatest time that it lets through. -/
def SumsInRange (cfg : ScanConfig) : Prop :=
  (cfg.serverName ≠ [] ∧ greatestPass cfg < leastPass cfg) ∨
    (cfg.scanMinRTT ≤ cfg.serverName.length * leastPass cfg / 1000000 ∧
      cfg.serverName.length * greatestPass cfg / 1000000 ≤ cfg.scanMaxRTT)

/-! ## One pass -/

/-- The certificate is accepted when its level does not ask for it, or it has the common name. -/
theorem checkCertificate_eq_none {cfg : ScanConfig} {params : String} {p : Pass} :
    checkCertificate cfg params p = none ↔ (1 < cfg.level → p.peerCertificates.head? = some cfg.verifyCommonName) := by
  unfold checkCertificate
  cases p.peerCertificates <;> simp

/-- The status is accepted when its level does not ask for it, or it is the valid one. -/
theorem checkStatus_eq_none {cfg : ScanConfig} {params : String} {p : Pass} :
    checkStatus cfg params p = none ↔ (2 < cfg.level → p.newRequest = none ∧ p.response = .ok cfg.validStatusCode) := by
  unfold checkStatus
  split
  · rename_i hlevel
    rcases p.newRequest with _ | err <;> rcases p.response with err' | code <;> simp [hlevel]
  · rename_i hlevel
    simp [hlevel]

/-- The time is accepted between the least and the greatest. -/
theorem checkRTT_eq_none {cfg : ScanConfig} {params : String} {p : Pass} :
    checkRTT cfg params p = none ↔ leastPass cfg ≤ (p.rtt : Int) ∧ (p.rtt : Int) ≤ greatestPass cfg := by
  unfold checkRTT leastPass greatestPass
  simp only [ite_eq_right_iff, reduceCtorEq, imp_false, max_le_iff, not_or, not_lt]
  exact and_congr_left fun _ => (and_iff_right (Int.natCast_nonneg p.rtt)).symm

/-- A pass does not fail exactly when it was served within the time bounds. -/
theorem checkServerName_eq_none {cfg : ScanConfig} {params : String} {p : Pass} :
    checkServerName cfg params p = none ↔ p.Served cfg ∧ leastPass cfg ≤ (p.rtt : Int) ∧ (p.rtt : Int) ≤ greatestPass cfg := by
  unfold checkServerName
  simp only [Option.or_eq_none_iff, Option.map_eq_none_iff, checkCertificate_eq_none, checkStatus_eq_none, checkRTT_eq_none]
  constructor
  · rintro ⟨hdial, hhandshake, hcertificate, hstatus, hrtt⟩
    exact ⟨⟨hdial, hhandshake, hcertificate, hstatus⟩, hrtt⟩
  · rintro ⟨hserved, hrtt⟩
    exact ⟨hserved.dialled, hserved.handshaken, hserved.certificate, hserved.status, hrtt⟩

/-! ## One attempt -/

/-- The passes of an attempt. -/
def Attempt.passes (cfg : ScanConfig) (a : Attempt) : List Pass := cfg.serverName.zipIdx.map fun e => a.pass e.2

/-- An attempt has a pass for every server name. -/
theorem Attempt.length_passes (cfg : ScanConfig) (a : Attempt) : (a.passes cfg).length = cfg.serverName.length := by
  rw [passes, List.length_map, List.length_zipIdx]

/-- A server name that returns early returns a failure. -/
theorem ok_of_checkServerName {cfg : ScanConfig} {params : String} {p : Pass} {res : Result}
    (h : checkServerName cfg params p = some res) : res.ok = false := by
  unfold checkServerName at h
  simp only [Option.or_eq_some_iff, Option.map_eq_some_iff] at h
  rcases h with ⟨err, -, rfl⟩ | ⟨-, ⟨err, -, rfl⟩ | ⟨-, h | ⟨-, h | ⟨-, h⟩⟩⟩⟩
  · rfl
  · rfl
  · unfold checkCertificate at h
    simp only [Option.ite_none_right_eq_some, Option.some.injEq] at h
    rw [← h.2]
    rfl
  · unfold checkStatus at h
    split at h
    · split at h
      · cases h
        rfl
      · cases h
        rfl
      · simp only [Option.ite_none_right_eq_some, Option.some.injEq] at h
        rw [← h.2]
        rfl
    · cases h
  · unfold checkRTT at h
    simp only [Option.ite_none_right_eq_some, Option.some.injEq] at h
    rw [← h.2]
    rfl

/-- An attempt passes exactly when all of its passes are served in time. -/
theorem checkServerNames_ok {cfg : ScanConfig} {host : String} {passes : List (String × Pass)} {totalRTT : Duration}
    {details : List String} : (checkServerNames cfg host passes totalRTT details).ok = true ↔
      ∀ e ∈ passes, e.2.Served cfg ∧ leastPass cfg ≤ (e.2.rtt : Int) ∧ (e.2.rtt : Int) ≤ greatestPass cfg := by
  induction passes generalizing totalRTT details with
  | nil => simp [checkServerNames]
  | cons e passes ih =>
    obtain ⟨serverName, p⟩ := e
    rw [checkServerNames, List.forall_mem_cons]
    simp only
    cases h : checkServerName cfg (probeParams serverName host (method cfg) cfg) p with
    | none =>
      simp only [ih]
      exact (and_iff_right (checkServerName_eq_none.1 h)).symm
    | some res =>
      simp only [ok_of_checkServerName h, Bool.false_eq_true, false_iff, not_and]
      intro hserved
      rw [checkServerName_eq_none.2 hserved] at h
      cases h

/-- The RTT of an attempt that passes is that of its passes together. -/
theorem checkServerNames_rtt {cfg : ScanConfig} {host : String} {passes : List (String × Pass)} {totalRTT : Duration}
    {details : List String} (h : (checkServerNames cfg host passes totalRTT details).ok = true) :
    (checkServerNames cfg host passes totalRTT details).rttMs =
      milliseconds (totalRTT + (passes.map fun e => (e.2.rtt : Int)).sum) := by
  induction passes generalizing totalRTT details with
  | nil => simp [checkServerNames]
  | cons e passes ih =>
    obtain ⟨serverName, p⟩ := e
    rw [checkServerNames] at h ⊢
    cases hp : checkServerName cfg (probeParams serverName host (method cfg) cfg) p with
    | none =>
      simp only [hp] at h ⊢
      rw [ih h, List.map_cons, List.sum_cons, Int.add_assoc]
    | some res =>
      simp only [hp, ok_of_checkServerName hp, Bool.false_eq_true] at h

/-- An attempt succeeds when every pass is served in time. -/
theorem checkSNIOnce_ok {cfg : ScanConfig} {a : Attempt} : (checkSNIOnce cfg a).ok = true ↔
    ∀ p ∈ a.passes cfg, p.Served cfg ∧ leastPass cfg ≤ (p.rtt : Int) ∧ (p.rtt : Int) ≤ greatestPass cfg := by
  unfold checkSNIOnce Attempt.passes
  rw [checkServerNames_ok]
  simp only [List.forall_mem_map]

/-- Its time is the sum of its passes. -/
theorem checkSNIOnce_rtt {cfg : ScanConfig} {a : Attempt} (h : (checkSNIOnce cfg a).ok = true) :
    (checkSNIOnce cfg a).rttMs = milliseconds ((a.passes cfg).map fun p => (p.rtt : Int)).sum := by
  unfold checkSNIOnce Attempt.passes at *
  rw [checkServerNames_rtt h, Int.zero_add, List.map_map, List.map_map]
  rfl

/-! ## All attempts -/

/-- The failures are kept, and the times of the successes add up. -/
theorem foldl_add (results : List Result) (t : Tally) :
    (results.foldl Tally.add t).failures = t.failures ++ results.filter (!·.ok) ∧
      (results.foldl Tally.add t).totalRTT = t.totalRTT + ((results.filter (·.ok)).map fun r => r.rttMs * 1000000).sum := by
  induction results generalizing t with
  | nil => simp
  | cons res results ih =>
    rw [List.foldl_cons]
    obtain ⟨hfailures, htotal⟩ := ih (t.add res)
    rw [hfailures, htotal]
    unfold Tally.add
    cases hok : res.ok <;> simp [hok, Int.add_assoc]

/-- The verdict passes exactly when every result does. -/
theorem verdict_ok {count : Int} {results : List Result} : (verdict count results).ok = true ↔ ∀ r ∈ results, r.ok = true := by
  unfold verdict
  simp only [(foldl_add results _).1, List.nil_append]
  split
  · rename_i hpos
    obtain ⟨r, hr⟩ := List.exists_mem_of_length_pos hpos
    obtain ⟨hmem, hfail⟩ := List.mem_filter.1 hr
    simp only [mergeFailures, Bool.false_eq_true, false_iff, not_forall]
    exact ⟨r, hmem, by simpa using hfail⟩
  · rename_i hnone
    have hnil := List.eq_nil_of_length_eq_zero (Nat.eq_zero_of_not_pos hnone)
    rw [List.filter_eq_nil_iff] at hnil
    simpa using hnil

/-- A number between two multiples of the divisor has its quotient between their quotients. -/
theorem tdiv_between {c a b x : Int} (hc : 0 < c) (ha : c * a ≤ x) (hb : x ≤ c * b) : a ≤ x.tdiv c ∧ x.tdiv c ≤ b := by
  have hlow := Int.tdiv_le_tdiv hc ha
  have hhigh := Int.tdiv_le_tdiv hc hb
  rw [Int.mul_tdiv_cancel_left _ hc.ne'] at hlow hhigh
  exact ⟨hlow, hhigh⟩

/-- The RTT of a verdict that passes lies between bounds of the RTTs of its results. -/
theorem verdict_rtt {count : Int} {results : List Result} (hcount : 0 < count) (hlength : results.length = count)
    (hok : ∀ r ∈ results, r.ok = true) {a b : Int} (hbounds : ∀ r ∈ results, a ≤ r.rttMs ∧ r.rttMs ≤ b) :
    a ≤ (verdict count results).rttMs ∧ (verdict count results).rttMs ≤ b := by
  have hnone : results.filter (!·.ok) = [] := by
    rw [List.filter_eq_nil_iff]
    intro r hr
    simp [hok r hr]
  have hall : results.filter (·.ok) = results := List.filter_eq_self.2 hok
  have hsum : count * (1000000 * a) ≤ (results.map fun r => r.rttMs * 1000000).sum ∧
      (results.map fun r => r.rttMs * 1000000).sum ≤ count * (1000000 * b) := by
    rw [← hlength]
    clear hlength hnone hall hok
    induction results with
    | nil => simp
    | cons r results ih =>
      have hrest := ih fun r' hr' => hbounds r' (List.mem_cons_of_mem r hr')
      have hr := hbounds r List.mem_cons_self
      rw [List.map_cons, List.sum_cons, List.length_cons, Nat.cast_succ, Int.add_mul, Int.add_mul]
      omega
  obtain ⟨hlow, hhigh⟩ := tdiv_between hcount hsum.1 hsum.2
  unfold verdict
  simp only [(foldl_add results _).1, (foldl_add results _).2, hnone, hall, List.nil_append, Int.zero_add, List.length_nil,
    lt_self_iff_false, if_false]
  exact tdiv_between (by decide) hlow hhigh

/-- There is an attempt. -/
theorem attemptCount_pos (cfg : ScanConfig) : 0 < attemptCount cfg := lt_of_lt_of_le Int.zero_lt_one (le_max_right _ _)

/-- A probe passes exactly when all passes of all attempts are served in time. -/
theorem checkSNIMulti_ok {cfg : ScanConfig} {net : Nat → Attempt} : (checkSNIMulti cfg net).ok = true ↔
    ∀ i : Nat, (i : Int) < attemptCount cfg → ∀ p ∈ (net i).passes cfg,
      p.Served cfg ∧ leastPass cfg ≤ (p.rtt : Int) ∧ (p.rtt : Int) ≤ greatestPass cfg := by
  unfold checkSNIMulti
  simp only [verdict_ok, List.forall_mem_map, List.mem_range, checkSNIOnce_ok, Int.lt_toNat]

/-! ## A pass means that a server was reached -/

/-- A probe that passes reached a server in each attempt, for every behaviour of the network, exactly
when there is a server name. -/
theorem probed_iff {gcfg : GScannerConfig} {mode : String} {cfg : ScanConfig}
    (_ : gcfg.forMode mode = some cfg) (net : Nat → Attempt) :
    ((checkSNIMulti cfg net).ok = true → Probed cfg net) ↔ cfg.serverName ≠ [] := by
  rw [checkSNIMulti_ok]
  constructor
  · intro h hnil
    have hnone : ∀ i, (net i).passes cfg = [] := fun i => by rw [Attempt.passes, hnil]; rfl
    obtain ⟨j, name, hname, -⟩ := h (fun i _ p hp => by rw [hnone] at hp; cases hp) 0 (attemptCount_pos cfg)
    rw [hnil] at hname
    cases hname
  · intro hne h i hi
    obtain ⟨name, names, hnames⟩ := List.exists_cons_of_ne_nil hne
    have hfirst : (net i).pass 0 ∈ (net i).passes cfg := by
      rw [Attempt.passes, hnames, List.zipIdx_cons, List.map_cons]
      exact List.mem_cons_self
    exact ⟨0, name, by rw [hnames]; rfl, (h i hi _ hfirst).1⟩

/-- What decoding leaves of a file without blocks. -/
def emptyFile : GScannerConfig := ⟨.zero, .zero, .zero, .zero⟩

/-- A network where every dial times out. -/
def unreachable : Nat → Attempt := fun _ => ⟨0, "abc.def", fun _ =>
    ⟨some "dial tcp 192.0.2.1:443: i/o timeout", none, [], none, .ok 0, 0⟩⟩

/-- A block with a server name. -/
def namedConfig : ScanConfig := { ScanConfig.zero with serverName := ["g.cn"], level := 3, validStatusCode := 200 }

/-- A network where every pass is served and takes `rtt`. -/
def served (cfg : ScanConfig) (rtt : Nat) : Nat → Attempt :=
  fun _ => ⟨0, "abc.def", fun _ => ⟨none, none, [cfg.verifyCommonName], none, .ok cfg.validStatusCode, rtt⟩⟩

/-- A block with a server name where every pass is served: the probe passes, and each attempt reached the server. -/
theorem probed_iff_named : (checkSNIMulti namedConfig (served namedConfig 0)).ok = true ∧
    Probed namedConfig (served namedConfig 0) := by
  have hok : (checkSNIMulti namedConfig (served namedConfig 0)).ok = true := by decide
  refine ⟨hok, (@probed_iff { emptyFile with sni := namedConfig } "SNI" namedConfig (by decide) _).2 ?_ hok⟩
  exact List.cons_ne_nil _ _

/-- With the block that a file without blocks leaves, an address that answers nothing passes. -/
theorem vacuous_pass : emptyFile.forMode "sni" = some .zero ∧ (checkSNIMulti .zero unreachable).ok = true ∧
    ¬Probed .zero unreachable := by
  refine ⟨by decide, by decide, fun h => ?_⟩
  obtain ⟨j, name, hname, -⟩ := h 0 (by decide)
  cases hname

/-! ## The bounds of the RTT -/

/-- The passes of an attempt that passes take together as long as the gate allows. -/
theorem sum_between {cfg : ScanConfig} {passes : List Pass}
    (h : ∀ p ∈ passes, leastPass cfg ≤ (p.rtt : Int) ∧ (p.rtt : Int) ≤ greatestPass cfg) :
    passes.length * leastPass cfg ≤ (passes.map fun p => (p.rtt : Int)).sum ∧
      (passes.map fun p => (p.rtt : Int)).sum ≤ passes.length * greatestPass cfg := by
  induction passes with
  | nil => simp
  | cons p passes ih =>
    have hrest := ih fun p' hp' => h p' (List.mem_cons_of_mem p hp')
    have hp := h p List.mem_cons_self
    rw [List.map_cons, List.sum_cons, List.length_cons, Nat.cast_succ, Int.add_mul, Int.add_mul]
    omega

/-- The RTT of a probe that passes lies between bounds of the times of its attempts. -/
theorem rtt_of_sums {cfg : ScanConfig} {net : Nat → Attempt} (h : (checkSNIMulti cfg net).ok = true) {a b : Int}
    (hsums : ∀ i : Nat, (i : Int) < attemptCount cfg → a ≤ (((net i).passes cfg).map fun p => (p.rtt : Int)).sum ∧
      (((net i).passes cfg).map fun p => (p.rtt : Int)).sum ≤ b) :
    a / 1000000 ≤ (checkSNIMulti cfg net).rttMs ∧ (checkSNIMulti cfg net).rttMs ≤ b / 1000000 := by
  have hlength : (((List.range (attemptCount cfg).toNat).map fun i => checkSNIOnce cfg (net i)).length : Int) =
      attemptCount cfg := by
    rw [List.length_map, List.length_range, Int.toNat_of_nonneg (attemptCount_pos cfg).le]
  refine verdict_rtt (attemptCount_pos cfg) hlength (verdict_ok.1 h) ?_
  simp only [List.forall_mem_map, List.mem_range, Int.lt_toNat]
  intro i hi
  have hok := checkSNIOnce_ok.2 (checkSNIMulti_ok.1 h i hi)
  have hpos : 0 ≤ (((net i).passes cfg).map fun p => (p.rtt : Int)).sum := List.sum_nonneg (by simp)
  rw [checkSNIOnce_rtt hok, milliseconds, Int.tdiv_eq_ediv_of_nonneg hpos]
  exact ⟨Int.ediv_le_ediv (by decide) (hsums i hi).1, Int.ediv_le_ediv (by decide) (hsums i hi).2⟩

/-- It lies between the sums of as many least and greatest passes as there are server names. -/
theorem rtt_between {cfg : ScanConfig} {net : Nat → Attempt} (h : (checkSNIMulti cfg net).ok = true) :
    cfg.serverName.length * leastPass cfg / 1000000 ≤ (checkSNIMulti cfg net).rttMs ∧
      (checkSNIMulti cfg net).rttMs ≤ cfg.serverName.length * greatestPass cfg / 1000000 := by
  refine rtt_of_sums h fun i hi => ?_
  have hsum := sum_between fun p hp => (checkSNIMulti_ok.1 h i hi p hp).2
  rwa [Attempt.length_passes] at hsum

/-- Passes of one time that the gate lets through make a probe that passes, and its RTT is their sum over the server names. -/
theorem served_rtt {cfg : ScanConfig} {rtt : Nat}
    (hgate : cfg.serverName ≠ [] → leastPass cfg ≤ (rtt : Int) ∧ (rtt : Int) ≤ greatestPass cfg) :
    (checkSNIMulti cfg (served cfg rtt)).ok = true ∧
      (checkSNIMulti cfg (served cfg rtt)).rttMs = cfg.serverName.length * (rtt : Int) / 1000000 := by
  have hpass : ∀ i, ∀ p ∈ (served cfg rtt i).passes cfg, p.Served cfg ∧ p.rtt = rtt := by
    intro i p hp
    obtain ⟨e, -, rfl⟩ := List.mem_map.1 hp
    exact ⟨⟨rfl, rfl, fun _ => rfl, fun _ => ⟨rfl, rfl⟩⟩, rfl⟩
  have hok : (checkSNIMulti cfg (served cfg rtt)).ok = true := by
    refine checkSNIMulti_ok.2 fun i _ p hp => ⟨(hpass i p hp).1, ?_⟩
    rw [(hpass i p hp).2]
    refine hgate fun hnil => ?_
    rw [Attempt.passes, hnil] at hp
    cases hp
  have hsum : ∀ i, (((served cfg rtt i).passes cfg).map fun p => (p.rtt : Int)).sum = cfg.serverName.length * (rtt : Int) := by
    intro i
    have hmap : ((served cfg rtt i).passes cfg).map (fun p => (p.rtt : Int)) =
        ((served cfg rtt i).passes cfg).map fun _ => (rtt : Int) :=
      List.map_congr_left fun p hp => by rw [(hpass i p hp).2]
    rw [hmap, List.map_const', List.sum_replicate, Attempt.length_passes, nsmul_eq_mul]
  obtain ⟨hlow, hhigh⟩ := rtt_of_sums hok fun i _ => ⟨(hsum i).ge, (hsum i).le⟩
  exact ⟨hok, le_antisymm hhigh hlow⟩

/-- The RTT of every probe that passes lies within the configured bounds exactly when sums of passes do. -/
theorem rtt_in_range_iff (cfg : ScanConfig) :
    (∀ net, (checkSNIMulti cfg net).ok = true → InRange cfg (checkSNIMulti cfg net)) ↔ SumsInRange cfg := by
  constructor
  · intro h
    by_cases hgate : cfg.serverName ≠ [] ∧ greatestPass cfg < leastPass cfg
    · exact Or.inl hgate
    refine Or.inr ?_
    have hends : ∀ t : Int, 0 ≤ t → (cfg.serverName ≠ [] → leastPass cfg ≤ t ∧ t ≤ greatestPass cfg) →
        cfg.scanMinRTT ≤ cfg.serverName.length * t / 1000000 ∧ cfg.serverName.length * t / 1000000 ≤ cfg.scanMaxRTT := by
      intro t ht hin
      obtain ⟨rtt, rfl⟩ := Int.eq_ofNat_of_zero_le ht
      obtain ⟨hok, hrtt⟩ := served_rtt hin
      have hrange := h _ hok
      rwa [InRange, hrtt] at hrange
    have hleast : 0 ≤ leastPass cfg := le_max_left _ _
    by_cases hnil : cfg.serverName = []
    · have hzero := hends 0 (le_refl 0) fun hne => absurd hnil hne
      rw [hnil] at hzero ⊢
      simpa using hzero
    · have hle : leastPass cfg ≤ greatestPass cfg := not_lt.1 fun hlt => hgate ⟨hnil, hlt⟩
      exact ⟨(hends _ hleast fun _ => ⟨le_refl _, hle⟩).1, (hends _ (hleast.trans hle) fun _ => ⟨hle, le_refl _⟩).2⟩
  · rintro (⟨hne, hgate⟩ | ⟨hlow, hhigh⟩) net hok
    · -- no pass of a server name is let through
      exfalso
      obtain ⟨name, names, hnames⟩ := List.exists_cons_of_ne_nil hne
      have hfirst : (net 0).pass 0 ∈ (net 0).passes cfg := by
        rw [Attempt.passes, hnames, List.zipIdx_cons, List.map_cons]
        exact List.mem_cons_self
      obtain ⟨-, hmin, hmax⟩ := checkSNIMulti_ok.1 hok 0 (attemptCount_pos cfg) _ hfirst
      omega
    · obtain ⟨hleast, hgreatest⟩ := rtt_between hok
      exact ⟨hlow.trans hleast, hgreatest.trans hhigh⟩

/-- Two server names and bounds of 0 to 100 ms. -/
def twoNames : ScanConfig := { ScanConfig.zero with serverName := ["g.cn", "www.google.com"], scanMaxRTT := 100 }

/-- Two passes of 80 ms are each within the bounds, and the probe passes with 160 ms. -/
theorem slow_sum : twoNames.scanMinRTT ≤ twoNames.scanMaxRTT ∧ (checkSNIMulti twoNames (served twoNames 80000000)).ok = true ∧
    (checkSNIMulti twoNames (served twoNames 80000000)).rttMs = 160 ∧
      ¬InRange twoNames (checkSNIMulti twoNames (served twoNames 80000000)) := by
  have hrtt : (checkSNIMulti twoNames (served twoNames 80000000)).rttMs = 160 := by decide +kernel
  refine ⟨by decide, by decide +kernel, hrtt, ?_⟩
  unfold InRange
  rw [hrtt]
  decide

/-- A small number of milliseconds does not wrap. -/
theorem ofMillis_of_small {ms : Int} (hlow : -9223372036854 ≤ ms) (hhigh : ms ≤ 9223372036854) : ofMillis ms = ms * 1000000 :=
  Int.bmod_eq_of_le (by omega) (by omega)

/-- For configured bounds in order that an int64 holds in nanoseconds, the sums are in range exactly with one server name, or with
none and zero within the bounds, or where no bound is above zero. -/
theorem sumsInRange_iff {cfg : ScanConfig} (horder : cfg.scanMinRTT ≤ cfg.scanMaxRTT) (hlow : -9223372036854 ≤ cfg.scanMinRTT)
    (hhigh : cfg.scanMaxRTT ≤ 9223372036854) : SumsInRange cfg ↔
      cfg.serverName.length = 1 ∨ (cfg.serverName.length = 0 ∧ cfg.scanMinRTT ≤ 0 ∧ 0 ≤ cfg.scanMaxRTT) ∨
        (2 ≤ cfg.serverName.length ∧ cfg.scanMaxRTT ≤ 0) := by
  have hleast : leastPass cfg = max 0 cfg.scanMinRTT * 1000000 := by
    rw [leastPass, ofMillis_of_small hlow (horder.trans hhigh)]
    omega
  have hgreatest : greatestPass cfg = cfg.scanMaxRTT * 1000000 := ofMillis_of_small (hlow.trans horder) hhigh
  have hcancel : ∀ n x : Int, n * (x * 1000000) / 1000000 = n * x := fun n x => by
    rw [← Int.mul_assoc, Int.mul_ediv_cancel _ (by decide)]
  unfold SumsInRange
  rw [hleast, hgreatest, hcancel, hcancel, ← List.length_pos_iff]
  generalize cfg.scanMinRTT = least at *
  generalize cfg.scanMaxRTT = greatest at *
  generalize cfg.serverName.length = n
  rcases Nat.lt_or_ge n 2 with hfew | hmany
  · interval_cases n <;> omega
  · have hmul : ∀ x : Int, 0 ≤ x → x ≤ n * x := fun x hx => le_mul_of_one_le_left hx (by omega)
    have hleast := hmul (max 0 least) (le_max_left _ _)
    rcases lt_or_ge 0 greatest with hpos | hneg
    · have hdouble : 2 * greatest ≤ n * greatest := Int.mul_le_mul_of_nonneg_right (by omega) hpos.le
      omega
    · have hsmall : n * greatest ≤ greatest := by
        have := hmul (-greatest) (by omega)
        rw [Int.mul_neg] at this
        omega
      omega

end Gwsdb.Recheck
