import Gwsdb.Recheck.Probe
import Gwsdb.Theorems.Consensus
import Gwsdb.Theorems.DrawnAddress
import Gwsdb.Theorems.Heartbeat
import Gwsdb.Theorems.PingReplies

/-!
# Nothing is submitted that was not probed

A worker's verdict is that of the ping gate and of `CheckSNI`. Between it and the server lie the buffer, the flushes that fail and
come again, and `FilterChecks`. In every run of the process, whatever its flushes meet, each row of each request is about an
address of the configured ranges or of a pool that the server sent, and its verdict is one that a probe of that address reached.
-/

namespace Gwsdb.Recheck

open Gwsdb.Scan (Action Agrees Config IPCheck Ledger PoolTarget Process next next_step persistedBy)
open Transition (run)

/-! ## The statement -/

section

variable (w : Prober)

/-- The probe found the address reachable: the ping passed or no socket opened, and each pass of each
attempt was served in time. -/
structure Reached (ip : String) (m : Meeting) : Prop where
  gate : ∃ ping, w.ping ip m = some ping ∧ ping.ok = true
  served : ∀ i : Nat, (i : Int) < attemptCount w.probeConfig → ∀ p ∈ (m.sni i).passes w.probeConfig,
    p.Served w.probeConfig ∧ leastPass w.probeConfig ≤ (p.rtt : Int) ∧ (p.rtt : Int) ≤ greatestPass w.probeConfig

/-- The probe found the address unreachable: the ping failed, or all attempts failed with one reason. -/
def Failed (ip : String) (m : Meeting) : Prop :=
  (∃ ping, w.ping ip m = some ping ∧ ping.ok = false) ∨
    ∃ ping reason, w.ping ip m = some ping ∧ ping.ok = true ∧ FailAlike (attemptResults w.probeConfig m.sni) reason

/-- The address is one of a configured prefix, or that of a target of a pool. -/
def Candidate (seeded : List PoolTarget) (ip : String) : Prop :=
  (∃ pre ∈ w.ipRange.v4 ++ w.ipRange.v6, ∃ a, pre.Contains a ∧ a.string = ip.toList) ∨ ∃ target ∈ seeded, target.ip = ip

/-- The row is what a probe of the run found: of its address, at its time, and with its verdict, which is not mixed. -/
structure ProbeRecord.Behind (r : ProbeRecord) (row : IPCheck) : Prop where
  result : w.probeOnce row.ip r.met = some r.probe.result
  plain : r.probe.result.mixed = false
  ip : r.probe.ip = row.ip
  ok : r.probe.result.ok = row.ok
  checkedAt : r.now = row.checkedAt
  found : if row.ok then Reached w row.ip r.met else Failed w row.ip r.met

/-- What a row needs behind it: a candidate, and a probe that was made of it. -/
structure Evidence (p : Probing) (row : IPCheck) : Prop where
  candidate : Candidate w p.process.history.seeded row.ip
  probed : ∃ r ∈ p.probes, r.Behind w row

end

/-! ## One probe -/

section

variable {w : Prober}

/-- A plain verdict of a probe says what the probe found. -/
theorem probed_of_probeOnce {ip : String} {m : Meeting} {result : Scan.Result} (h : w.probeOnce ip m = some result)
    (hmixed : result.mixed = false) : if result.ok then Reached w ip m else Failed w ip m := by
  obtain ⟨ping, hping, rfl⟩ := Option.map_eq_some_iff.mp h
  cases hgate : ping.ok with
  | false => exact .inl ⟨ping, hping, hgate⟩
  | true =>
    simp only [hgate, Bool.not_true, Bool.false_eq_true, if_false] at hmixed ⊢
    cases hok : (checkSNIMulti w.probeConfig m.sni).ok with
    | true => exact ⟨⟨ping, hping, hgate⟩, checkSNIMulti_ok.mp hok⟩
    | false =>
      have hne : attemptResults w.probeConfig m.sni ≠ [] := by
        intro hnil
        have hlength := length_attemptResults w.probeConfig m.sni
        rw [hnil, List.length_nil] at hlength
        omega
      exact .inr ⟨ping, _, hping, hgate,
        (verdict_plain (length_attemptResults w.probeConfig m.sni) hne _).mp ⟨hok, hmixed, rfl⟩⟩

/-- An address that `getIP` draws lies in a prefix of its family. -/
theorem candidate_of_getIP {ipv6 : Bool} {pick : Nat} {draws : Nat → UInt8} {ip : String} {seeded : List PoolTarget}
    (h : w.ipRange.getIP ipv6 pick draws = some ip.toList) : Candidate w seeded ip := by
  obtain ⟨pre, hpre, hstring⟩ := Option.map_eq_some_iff.mp h
  refine .inl ⟨pre, ?_, _, Scan.contains_randomAddrInPrefix pre draws, hstring⟩
  have hmem := List.mem_of_getElem? hpre
  cases ipv6 with
  | false => exact List.mem_append_left _ hmem
  | true => exact List.mem_append_right _ hmem

theorem Candidate.append {seeded : List PoolTarget} {ip : String} (h : Candidate w seeded ip) (targets : List PoolTarget) :
    Candidate w (seeded ++ targets) ip := by
  obtain h | ⟨target, hmem, hip⟩ := h
  · exact .inl h
  · exact .inr ⟨target, List.mem_append_left _ hmem, hip⟩

/-- A row with the address, the verdict and the time of another has the same probe behind it. -/
theorem ProbeRecord.Behind.of_agrees {r : ProbeRecord} {c row : IPCheck} (h : r.Behind w c) (ha : Agrees c row) :
    r.Behind w row := by
  obtain ⟨hip, hok, hat⟩ := ha
  obtain ⟨hresult, hplain, hrip, hrok, hnow, hfound⟩ := h
  rw [hip] at hresult hrip hfound
  rw [hok] at hrok hfound
  exact ⟨hresult, hplain, hrip, hrok, hnow.trans hat, hfound⟩

/-- Evidence stays while targets are seeded and probes are made. -/
theorem Evidence.mono {p p' : Probing} {row : IPCheck} (h : Evidence w p row)
    (hseeded : ∃ targets, p'.process.history.seeded = p.process.history.seeded ++ targets) (hprobes : p.probes ⊆ p'.probes) :
    Evidence w p' row := by
  obtain ⟨hcandidate, r, hr, hbehind⟩ := h
  obtain ⟨targets, hseeded⟩ := hseeded
  exact ⟨hseeded ▸ hcandidate.append targets, r, hprobes hr, hbehind⟩

/-- A row with the address, the verdict and the time of another has the same evidence. -/
theorem Evidence.of_agrees {p : Probing} {c row : IPCheck} (h : Evidence w p c) (ha : Agrees c row) : Evidence w p row := by
  obtain ⟨hcandidate, r, hr, hbehind⟩ := h
  exact ⟨ha.1 ▸ hcandidate, r, hr, hbehind.of_agrees ha⟩

/-- What a worker has come to: a verdict on a candidate, from what its probe met. -/
theorem probe_spec {p : Process} {job : Job} {m : Meeting} {probe : Scan.Probe} (h : w.probe job m = some probe)
    (hp : Scan.probeable p probe) : Candidate w p.history.seeded probe.ip ∧ w.probeOnce probe.ip m = some probe.result := by
  cases job with
  | draw ipv6 pick draws =>
    obtain ⟨ip, hip, hresult⟩ := Option.bind_eq_some_iff.mp h
    obtain ⟨text, htext, rfl⟩ := Option.map_eq_some_iff.mp hip
    obtain ⟨result, honce, hret⟩ := Option.bind_eq_some_iff.mp hresult
    cases hret
    refine ⟨candidate_of_getIP (htext.trans ?_), honce⟩
    rw [Scan.Probe.ip, String.toList_ofList]
  | target t =>
    obtain ⟨result, honce, rfl⟩ := Option.map_eq_some_iff.mp h
    unfold Scan.probeable at hp
    simp only [Bool.and_eq_true, decide_eq_true_eq] at hp
    exact ⟨.inr ⟨t, hp.2, rfl⟩, honce⟩

/-- What the critical section persists of a verdict and a time: a check of its address, with both. -/
theorem persistedBy_spec {cfg : Config} {s : Scan.Scanner} {probe : Scan.Probe} {now : Scan.Time} {c : IPCheck}
    (hc : c ∈ persistedBy cfg s probe now) : c.ip = probe.ip ∧ c.ok = probe.result.ok ∧ c.checkedAt = now := by
  cases probe with
  | scan ip result =>
    cases List.mem_singleton.mp hc
    exact ⟨rfl, rfl, rfl⟩
  | recheck target result =>
    unfold persistedBy at hc
    simp only at hc
    split at hc
    · cases List.mem_singleton.mp hc
      exact ⟨rfl, rfl, rfl⟩
    · cases hc

/-! ## Whole runs -/

/-- A verdict that waits for the mutex was reached by a probe of the run, of a candidate. -/
structure Waits (w : Prober) (p : Probing) (reading : Scan.Probe × Scan.Time) : Prop where
  candidate : Candidate w p.process.history.seeded reading.1.ip
  plain : reading.1.result.mixed = false
  probed : ∃ r ∈ p.probes, r.probe = reading.1 ∧ r.now = reading.2 ∧ w.probeOnce reading.1.ip r.met = some reading.1.result

theorem Waits.mono {p p' : Probing} {reading : Scan.Probe × Scan.Time} (h : Waits w p reading)
    (hseeded : ∃ targets, p'.process.history.seeded = p.process.history.seeded ++ targets) (hprobes : p.probes ⊆ p'.probes) :
    Waits w p' reading := by
  obtain ⟨hcandidate, hplain, r, hr, hprobed⟩ := h
  obtain ⟨targets, hseeded⟩ := hseeded
  exact ⟨hseeded ▸ hcandidate.append targets, hplain, r, hprobes hr, hprobed⟩

/-- What the critical section persists of a waiting verdict has evidence. -/
theorem Waits.evidence {p : Probing} {probe : Scan.Probe} {now : Scan.Time} (h : Waits w p (probe, now)) {cfg : Config}
    {s : Scan.Scanner} {c : IPCheck} (hc : c ∈ persistedBy cfg s probe now) : Evidence w p c := by
  obtain ⟨hcandidate, hplain, r, hr, rfl, rfl, honce⟩ := h
  obtain ⟨hip, hok, hat⟩ := persistedBy_spec hc
  refine ⟨hip ▸ hcandidate, r, hr, ?_, hplain, hip.symm, hok.symm, hat.symm, ?_⟩
  · rw [hip]
    exact honce
  · rw [hip, hok]
    exact probed_of_probeOnce honce hplain

/-- What every state of a run keeps. -/
structure Substantiated (w : Prober) (p : Probing) : Prop where
  ledger : Ledger p.process
  readings : ∀ reading ∈ p.process.readings, Waits w p reading
  persisted : ∀ c ∈ p.process.history.persisted, Evidence w p c
  requests : ∀ request ∈ p.process.history.requests, ∀ row ∈ request.1.checks, Evidence w p row

/-- A step that keeps the readings and what was persisted and submitted, while targets may be seeded and probes made. -/
theorem Substantiated.frame {p p' : Probing} (hs : Substantiated w p) (hledger : Ledger p'.process)
    (hreadings : p'.process.readings = p.process.readings)
    (hseeded : ∃ targets, p'.process.history.seeded = p.process.history.seeded ++ targets) (hprobes : p.probes ⊆ p'.probes)
    (hpersisted : p'.process.history.persisted = p.process.history.persisted)
    (hrequests : p'.process.history.requests = p.process.history.requests) : Substantiated w p' := by
  refine ⟨hledger, ?_, ?_, ?_⟩
  · rw [hreadings]
    exact fun reading hm => (hs.readings reading hm).mono hseeded hprobes
  · rw [hpersisted]
    exact fun c hc => (hs.persisted c hc).mono hseeded hprobes
  · rw [hrequests]
    exact fun request hm row hrow => (hs.requests request hm row hrow).mono hseeded hprobes

/-- One more request: its rows agree with checks of the batch, and those were persisted. -/
theorem Substantiated.request {cfg : Config} {p : Probing} (hs : Substantiated w p) {b : Scan.Batch}
    (hb : p.process.flusher.batch = some b) (m : Bool) (now : Scan.Time) (reply : Option Bool) :
    ∀ request ∈ p.process.history.requests ++ [(Scan.requestOf cfg p.process.scanner b m now, reply)], ∀ row ∈ request.1.checks,
      Evidence w p row := by
  intro request hrequest row hrow
  rcases List.mem_append.mp hrequest with hrequest | hrequest
  · exact hs.requests request hrequest row hrow
  · cases List.mem_singleton.mp hrequest
    obtain ⟨c, hc, hagrees⟩ := Scan.rowsOf_source (hs.ledger.batch_dated hb) hrow
    exact (hs.persisted c (Scan.batch_persisted hs.ledger.exact hb c hc)).of_agrees hagrees

/-- A probe leaves its verdict with a worker that waits, or drops a mixed one. -/
theorem Substantiated.probe {cfg : Config} {p p' : Probing} {job : Job} {m : Meeting} {now : Scan.Time}
    (h : w.next cfg p (.probe job m now) = some p') (hs : Substantiated w p) : Substantiated w p' := by
  obtain ⟨probe, hprobe, hnext⟩ := Option.bind_eq_some_iff.mp h
  obtain ⟨process, hprocess, hret⟩ := Option.bind_eq_some_iff.mp hnext
  cases hret
  have hledger := Scan.next_ledger hprocess hs.ledger
  have hmade : p.probes ⊆ p.probes ++ [⟨probe, m, now⟩] := List.subset_append_left _ _
  unfold verdictAction at hprocess
  split at hprocess
  · cases next_step hprocess with
    | mixed => exact hs.frame hledger rfl ⟨[], (List.append_nil _).symm⟩ hmade rfl rfl
  · rename_i hmixed
    cases next_step hprocess with
    | read hp hm hn =>
      refine ⟨hledger, fun reading hreading => ?_, fun c hc => (hs.persisted c hc).mono ⟨[], (List.append_nil _).symm⟩ hmade,
        fun request hm row hrow => (hs.requests request hm row hrow).mono ⟨[], (List.append_nil _).symm⟩ hmade⟩
      rcases List.mem_append.mp hreading with hreading | hreading
      · exact (hs.readings reading hreading).mono ⟨[], (List.append_nil _).symm⟩ hmade
      · cases List.mem_singleton.mp hreading
        obtain ⟨hcandidate, honce⟩ := probe_spec hprobe hp
        exact ⟨hcandidate, hm, _, List.mem_append_right _ (List.mem_singleton_self _), rfl, rfl, honce⟩

/-- A step of the process that brings no verdict. -/
theorem Substantiated.other {cfg : Config} {p : Probing} {process : Process} {a : Action}
    (h : next cfg p.process a = some process)
    (hread : ∀ probe now, a ≠ .read probe now) (hmixed : ∀ probe, a ≠ .mixed probe) (hs : Substantiated w p) :
    Substantiated w { p with process } := by
  have hledger := Scan.next_ledger h hs.ledger
  have hunseeded : ∃ targets, p.process.history.seeded = p.process.history.seeded ++ targets := ⟨[], (List.append_nil _).symm⟩
  have hsame : p.probes ⊆ p.probes := List.Subset.refl _
  cases next_step h with
  | read => exact absurd rfl (hread _ _)
  | mixed => exact absurd rfl (hmixed _)
  | @enter i probe now hi =>
    refine ⟨hledger, fun reading hm => ?_, fun c hc => ?_, fun request hm row hrow => ?_⟩
    · exact (hs.readings reading (List.mem_of_mem_eraseIdx hm)).mono hunseeded hsame
    · rw [Scan.entered_persisted] at hc
      rcases List.mem_append.mp hc with hc | hc
      · exact (hs.persisted c hc).mono hunseeded hsame
      · exact ((hs.readings _ (List.mem_of_getElem? hi)).evidence hc).mono hunseeded hsame
    · exact (hs.requests request hm row hrow).mono hunseeded hsame
  | @seed targets ha => exact hs.frame hledger rfl ⟨targets, rfl⟩ hsame rfl rfl
  | flush => exact hs.frame hledger rfl hunseeded hsame rfl rfl
  | nothing => exact hs.frame hledger rfl hunseeded hsame rfl rfl
  | decide => exact hs.frame hledger rfl hunseeded hsame rfl rfl
  | refresh => exact hs.frame hledger rfl hunseeded hsame rfl rfl
  | keep => exact hs.frame hledger rfl hunseeded hsame rfl rfl
  | unfetched => exact hs.frame hledger rfl hunseeded hsame rfl rfl
  | @refused now doneAt b m hb =>
    refine ⟨hledger, fun reading hm => (hs.readings reading hm).mono hunseeded hsame,
      fun c hc => (hs.persisted c hc).mono hunseeded hsame, fun request hm row hrow => ?_⟩
    exact (hs.request (by rw [hb]; rfl) m now none request hm row hrow).mono hunseeded hsame
  | @submitted now doneAt pruneOK b m hb =>
    refine ⟨hledger, fun reading hm => (hs.readings reading hm).mono hunseeded hsame,
      fun c hc => (hs.persisted c hc).mono hunseeded hsame, fun request hm row hrow => ?_⟩
    exact (hs.request (by rw [hb]; rfl) m now (some pruneOK) request hm row hrow).mono hunseeded hsame
  | requeue => exact hs.frame hledger rfl hunseeded hsame rfl rfl
  | merge => exact hs.frame hledger rfl hunseeded hsame rfl rfl
  | shutdown => exact hs.frame hledger rfl hunseeded hsame rfl rfl
  | giveUp => exact hs.frame hledger rfl hunseeded hsame rfl rfl

/-- Every step keeps what is substantiated so. -/
theorem next_substantiated {cfg : Config} {p p' : Probing} {a : ProbeAction} (h : w.next cfg p a = some p')
    (hs : Substantiated w p) : Substantiated w p' := by
  cases a with
  | probe job m now => exact hs.probe h
  | other a =>
    unfold Prober.next at h
    split at h
    · contradiction
    · cases h
    · cases h
    · rename_i a' hread hmixed ha
      cases ha
      obtain ⟨process, hprocess, rfl⟩ := Option.map_eq_some_iff.mp h
      exact hs.other hprocess hread hmixed

end

/-- In every run of the process, each row of each request has behind it a probe that the run has made: a probe of that address,
which is a candidate, at the time of the row, whose verdict on what it met is the row's. Whatever the flushes met, nothing becomes
reachable or unreachable on the server for a scanner that did not find it so. -/
theorem rows_probed (w : Prober) (cfg : Config) (as : List ProbeAction) (p : Probing) (hr : run (w.next cfg) .start as = some p) :
    ∀ request ∈ p.process.history.requests, ∀ row ∈ request.1.checks, Evidence w p row := by
  have hs : Substantiated w p :=
    Transition.invariant (fun _ _ _ h hs => next_substantiated h hs) hr ⟨Scan.start_ledger, nofun, nofun, nofun⟩
  exact hs.requests

/-- A process that scans 8.8.8.0/24 with a block that asks for a handshake only. -/
def sampleProber : Prober where
  lib := sampleParsers
  pingRaw := ""
  probeConfig := { namedConfig with level := 1, scanMaxRTT := 1000 }
  pingConfig := ⟨0, 20000000⟩
  ipRange := ⟨[⟨⟨[8, 8, 8, 0], .inl rfl⟩, 24, by decide⟩], [], []⟩

/-- The ping is answered, and the pass takes 90 ms. -/
def sampleMeeting : Meeting :=
  ⟨6000000000, sampleNetwork, fun _ => ⟨0, "abc.def", fun _ => ⟨none, none, [], none, .ok 200, 90000000⟩⟩⟩

/-- A draw of the scan workers for IPv4. -/
def sampleDraw (last : UInt8) : Job := .draw false 0 fun _ => last

/-- The ping is answered, and the pass is served too late. -/
def lateMeeting : Meeting :=
  ⟨6000000000, sampleNetwork, fun _ => ⟨0, "abc.def", fun _ => ⟨none, none, [], none, .ok 200, 2000000000⟩⟩⟩

/-- A hit and a miss come in, the first flush cannot fetch the known-good set, and the next one submits both. -/
def hitRun : List ProbeAction :=
  [.probe (sampleDraw 8) sampleMeeting 1, .other (.enter 0), .other (.flush .ticker), .probe (sampleDraw 4) lateMeeting 2,
    .other (.decide 3), .other (.fetchKnownGood 4 none 4), .other .requeue, .other (.enter 0), .other (.flush .retry),
    .other (.decide 5), .other (.fetchKnownGood 6 (some ["8.8.8.4"]) 6), .other (.submit 7 (some true) 8)]

theorem rows_probed_hit : ∃ p, run (sampleProber.next Scan.sampleConfig) .start hitRun = some p ∧ p.probes.length = 2 ∧
    p.process.history.requests.map (fun request => request.1.checks.map fun row => (row.ip, row.ok)) =
      [[("8.8.8.8", true), ("8.8.8.4", false)]] ∧
    ∀ request ∈ p.process.history.requests, ∀ row ∈ request.1.checks, Evidence sampleProber p row := by
  have hrun : (run (sampleProber.next Scan.sampleConfig) .start hitRun).map (fun p => (p.probes.length,
      p.process.history.requests.map fun request => request.1.checks.map fun row => (row.ip, row.ok))) =
        some (2, [[("8.8.8.8", true), ("8.8.8.4", false)]]) := by decide +kernel
  obtain ⟨p, hp, heq⟩ := Option.map_eq_some_iff.mp hrun
  exact ⟨p, hp, congrArg Prod.fst heq, congrArg Prod.snd heq, rows_probed sampleProber Scan.sampleConfig hitRun p hp⟩

end Gwsdb.Recheck
