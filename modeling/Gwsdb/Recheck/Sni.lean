import Gwsdb.Scan.NetErr
import Gwsdb.Scan.Scanner

/-!
# The SNI probe

`internal/recheck/sni.go` and the part of `internal/ingest/config.go` that it reads. What the network and the clock do is an
argument: for each attempt the random draws, and for each of its passes over a server name how every step of it ends and how long
the pass takes. Timeouts show in how the steps end. A pass is timed in nanoseconds on the monotonic clock; the sum of such times
stays below the 292 years where an int64 would wrap, the products of configured numbers need not.
-/

namespace Gwsdb.Recheck

open Gwsdb.Scan (Result sanitizeNetErr)

/-! ## Configuration -/

/-- `ScanConfig`: the fields that the probe reads. -/
structure ScanConfig where
  scanCountPerIP : Int
  serverName : List String
  httpVerifyHosts : List String
  verifyCommonName : String
  httpPath : String
  httpMethod : String
  validStatusCode : Int
  scanMinRTT : Int
  scanMaxRTT : Int
  level : Int
  deriving DecidableEq, Repr

/-- What decoding leaves in a block that the file does not have. -/
def ScanConfig.zero : ScanConfig where
  scanCountPerIP := 0
  serverName := []
  httpVerifyHosts := []
  verifyCommonName := ""
  httpPath := ""
  httpMethod := ""
  validStatusCode := 0
  scanMinRTT := 0
  scanMaxRTT := 0
  level := 0

/-- `GScannerConfig`: its blocks. -/
structure GScannerConfig where
  ping : ScanConfig
  quic : ScanConfig
  tls : ScanConfig
  sni : ScanConfig

/-- `normalizeMode`. -/
def normalizeMode (mode : String) : String := String.ofList (mode.toList.map Char.toLower)

/-- `ForMode`. -/
def GScannerConfig.forMode (c : GScannerConfig) (mode : String) : Option ScanConfig :=
  if normalizeMode mode = "quic" then some c.quic
  else if normalizeMode mode = "tls" then some c.tls
  else if normalizeMode mode = "sni" then some c.sni
  else if normalizeMode mode = "ping" then some c.ping
  else none

/-! ## Durations -/

/-- `time.Duration`: nanoseconds. -/
abbrev Duration := Int

/-- A number as an int64 holds it. -/
def int64 (n : Int) : Int := n.bmod (2 ^ 64)

/-- `time.Duration(ms) * time.Millisecond`. -/
def ofMillis (ms : Int) : Duration := int64 (ms * 1000000)

/-- `Milliseconds`. -/
def milliseconds (d : Duration) : Int := d.tdiv 1000000

/-! ## One pass -/

/-- How one pass over a server name goes. A step is looked at only where the steps before it succeeded. -/
structure Pass where
  /-- The error of the dial. -/
  dial : Option String
  /-- The error of the handshake. -/
  handshake : Option String
  /-- The common names of the certificates that the peer presents. -/
  peerCertificates : List String
  /-- The error of making the request. -/
  newRequest : Option String
  /-- The error of the request, or the status code of its response. -/
  response : Except String Int
  /-- The time from the dial to the end of the pass. -/
  rtt : Nat

/-- `probeParams`. -/
def probeParams (serverName host method : String) (cfg : ScanConfig) : String :=
  " ".intercalate
    ((if serverName ≠ "" then ["sni=" ++ serverName] else []) ++
      (if host ≠ "" ∧ 2 < cfg.level then ["host=" ++ host] else []) ++
      (if method ≠ "" ∧ 2 < cfg.level then ["method=" ++ method] else []) ++
      (if cfg.httpPath ≠ "" ∧ 2 < cfg.level then ["path=" ++ cfg.httpPath] else []) ++
      (if cfg.verifyCommonName ≠ "" ∧ 1 < cfg.level then ["want_cn=" ++ cfg.verifyCommonName] else []) ++
      (if cfg.validStatusCode ≠ 0 ∧ 2 < cfg.level then ["want_code=" ++ toString cfg.validStatusCode] else []))

/-- The result of a failed pass. -/
def failed (reason params detail : String) : Result := ⟨false, 0, reason, params ++ detail, false⟩

/-- The check of the certificate. -/
def checkCertificate (cfg : ScanConfig) (params : String) (p : Pass) : Option Result :=
  let gotCN := p.peerCertificates.head?.getD ""
  if 1 < cfg.level ∧ (p.peerCertificates = [] ∨ gotCN ≠ cfg.verifyCommonName) then some (failed "cn" params (" got_cn=" ++ gotCN))
  else none

/-- The check of the status code. -/
def checkStatus (cfg : ScanConfig) (params : String) (p : Pass) : Option Result :=
  if 2 < cfg.level then
    match p.newRequest, p.response with
    | some err, _ => some (failed "http" params (" error=" ++ err))
    | none, .error err => some (failed "http" params (" error=" ++ sanitizeNetErr err))
    | none, .ok code => if code ≠ cfg.validStatusCode then some (failed "status" params (" got_code=" ++ toString code)) else none
  else none

/-- The gate on the time of the pass. -/
def checkRTT (cfg : ScanConfig) (params : String) (p : Pass) : Option Result :=
  if (p.rtt : Int) < ofMillis cfg.scanMinRTT ∨ ofMillis cfg.scanMaxRTT < p.rtt then
    some (failed "rtt" params (" rtt=" ++ toString (milliseconds p.rtt) ++ "ms (want " ++
      toString (milliseconds (ofMillis cfg.scanMinRTT)) ++ "-" ++ toString (milliseconds (ofMillis cfg.scanMaxRTT)) ++ "ms)"))
  else none

/-- The failure of a pass, that of its first step that fails. -/
def checkServerName (cfg : ScanConfig) (params : String) (p : Pass) : Option Result :=
  (p.dial.map fun err => failed "dial" params (" error=" ++ sanitizeNetErr err)).or <|
    (p.handshake.map fun err => failed "handshake" params (" error=" ++ sanitizeNetErr err)).or <|
      (checkCertificate cfg params p).or <| (checkStatus cfg params p).or (checkRTT cfg params p)

/-! ## One attempt -/

/-- What an attempt meets: the draw of `rand.Intn`, the host that `randomHost` makes up, and how the pass over the
server name of each index goes. -/
structure Attempt where
  pick : Nat
  randomHost : String
  pass : Nat → Pass

/-- The host of the requests of an attempt. -/
def Attempt.host (cfg : ScanConfig) (a : Attempt) : String :=
  (cfg.httpVerifyHosts[a.pick % cfg.httpVerifyHosts.length]?).getD a.randomHost

/-- The method of the requests. -/
def method (cfg : ScanConfig) : String := if cfg.httpMethod = "" then "HEAD" else cfg.httpMethod

/-- The loop of `checkSNIOnce` over the server names and their passes. -/
def checkServerNames (cfg : ScanConfig) (host : String) : List (String × Pass) → Duration → List String → Result
  | [], totalRTT, details => ⟨true, milliseconds totalRTT, "", " ".intercalate details, false⟩
  | (serverName, p) :: passes, totalRTT, details =>
    let params := probeParams serverName host (method cfg) cfg
    match checkServerName cfg params p with
    | some res => res
    | none => checkServerNames cfg host passes (totalRTT + p.rtt) (details ++ [params])

/-- `checkSNIOnce`. -/
def checkSNIOnce (cfg : ScanConfig) (a : Attempt) : Result :=
  checkServerNames cfg (a.host cfg) (cfg.serverName.zipIdx.map fun e => (e.1, a.pass e.2)) 0 []

/-! ## Consensus -/

/-- `mergeFailures`. -/
def mergeFailures (failures : List Result) (total : Int) : Result :=
  let reason := (failures.head?.map (·.reason)).getD ""
  let (reason, disagree) := failures.foldl
    (fun st f => if f.reason ≠ st.1 then ("mixed", true) else st) (reason, false)
  let detail := "; ".intercalate (failures.map (·.detail))
  let split := (failures.length : Int) < total
  { ok := false
    rttMs := 0
    reason
    detail := if split then toString failures.length ++ "/" ++ toString total ++ " attempts failed: " ++ detail else detail
    mixed := split || disagree }

/-- The state of the loop of `checkSNIMulti`. -/
structure Tally where
  totalRTT : Duration
  lastDetail : String
  failures : List Result

/-- One more result. -/
def Tally.add (t : Tally) (res : Result) : Tally :=
  if !res.ok then { t with failures := t.failures ++ [res] }
  else { t with totalRTT := t.totalRTT + res.rttMs * 1000000, lastDetail := res.detail }

/-- The verdict on the results of all attempts. -/
def verdict (count : Int) (results : List Result) : Result :=
  let t := results.foldl Tally.add ⟨0, "", []⟩
  if 0 < t.failures.length then mergeFailures t.failures count
  else ⟨true, milliseconds (t.totalRTT.tdiv count), "", t.lastDetail, false⟩

/-- The number of attempts. -/
def attemptCount (cfg : ScanConfig) : Int := max cfg.scanCountPerIP 1

/-- `checkSNIMulti`, and with the production port `CheckSNI`: `net` says what the attempt of each number meets. -/
def checkSNIMulti (cfg : ScanConfig) (net : Nat → Attempt) : Result :=
  verdict (attemptCount cfg) ((List.range (attemptCount cfg).toNat).map fun i => checkSNIOnce cfg (net i))

end Gwsdb.Recheck
