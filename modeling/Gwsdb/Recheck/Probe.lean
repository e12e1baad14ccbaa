import Gwsdb.Recheck.Ping
import Gwsdb.Scan.Scanner

/-!
# A probe

The sequence that the scan workers (`runWorker` of `internal/scan/scanner.go`), the recheck workers (`runRecheckWorker` of
`internal/scan/recheck_worker.go`), the probe server (`internal/scan/probeserver.go`) and `gwsdb recheck` (`probeOnce` of
`cmd/gwsdb/main.go`) all run on an address: the ping gate, and then `CheckSNI`.
-/

namespace Gwsdb.Recheck

open Gwsdb.Scan (IPRangeSource PoolTarget Result)

/-- `ProbeParams`. -/
def ProbeParams (cfg : ScanConfig) : String :=
  probeParams (cfg.serverName.head?.getD "") (cfg.httpVerifyHosts.head?.getD "") (method cfg) cfg

/-- What a process probes with: the parsers, `GWSDB_PING_RAW`, its configuration, and the ranges of its scan workers. -/
structure Prober where
  lib : Parsers
  pingRaw : String
  probeConfig : ScanConfig
  pingConfig : PingConfig
  ipRange : IPRangeSource

/-- What a probe meets: the deadline of its ping, the network of the ping, and that of the attempts of `CheckSNI`. -/
structure Meeting where
  deadline : Instant
  ping : Network
  sni : Nat → Attempt

variable (w : Prober)

/-- The ping of a probe. -/
def Prober.ping (ip : String) (m : Meeting) : Option PingResult := Ping w.lib w.pingRaw (some m.deadline) ip w.pingConfig m.ping

/-- `probeOnce`; none where the ping panics. -/
def Prober.probeOnce (ip : String) (m : Meeting) : Option Result :=
  (w.ping ip m).map fun ping =>
    if !ping.ok then ⟨false, 0, "ping", ProbeParams w.probeConfig ++ " error=" ++ ping.err, false⟩
    else checkSNIMulti w.probeConfig m.sni

/-! ## The workers -/

/-- What a worker takes up: a scan worker draws an address of its family, a recheck worker has a target. -/
inductive Job where
  | draw (ipv6 : Bool) (pick : Nat) (draws : Nat → UInt8)
  | target (t : PoolTarget)

/-- The verdict a worker comes to on its job; none where `getIP` has no prefix to draw from, and where the ping panics. -/
def Prober.probe : Job → Meeting → Option Scan.Probe
  | .draw ipv6 pick draws, m => do
    let ip ← (w.ipRange.getIP ipv6 pick draws).map String.ofList
    let result ← w.probeOnce ip m
    return .scan ip result
  | .target t, m => (w.probeOnce t.ip m).map (.recheck t)

/-- A probe that was made: its verdict, what it met, and the clock after it. -/
structure ProbeRecord where
  probe : Scan.Probe
  met : Meeting
  now : Scan.Time

/-- The process and the probes its workers have made, in order. -/
structure Probing where
  process : Scan.Process
  probes : List ProbeRecord

/-- The process when `Run` starts. -/
def Probing.start : Probing := ⟨.start, []⟩

/-- A step: a worker probes, and what its probe meets is given; or anything else happens to the process. -/
inductive ProbeAction where
  | probe (job : Job) (met : Meeting) (now : Scan.Time)
  | other (a : Scan.Action)

/-- What becomes of a verdict: a mixed one is dropped, with any other one the worker reads the clock. -/
def verdictAction (probe : Scan.Probe) (now : Scan.Time) : Scan.Action :=
  if probe.result.mixed then .mixed probe else .read probe now

/-- One step of the process, whose verdicts come from probes only. -/
def Prober.next (cfg : Scan.Config) (p : Probing) : ProbeAction → Option Probing
  | .probe job met now => do
    let probe ← w.probe job met
    let process ← Scan.next cfg p.process (verdictAction probe now)
    return ⟨process, p.probes ++ [⟨probe, met, now⟩]⟩
  | .other (.read _ _) => none
  | .other (.mixed _) => none
  | .other a => (Scan.next cfg p.process a).map fun process => { p with process }

end Gwsdb.Recheck
