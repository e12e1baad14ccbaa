import Gwsdb.Scan.Filter
import Gwsdb.Lib.Transition
import Mathlib.Data.List.Sort
import Mathlib.Data.String.Basic

/-!
# The scanner

`internal/scan/scanner.go` and `internal/scan/flush.go`: the state that the probe workers, the recheck feeders and the flusher
share under one mutex, and the steps they take on it. A worker reads its clock and then waits for the mutex, so a reading and the
critical section that uses it are two steps. The flusher's `flush` is cut at its critical sections and at its requests; every
fetch and every submission may fail. `History` records what a run has done; no step reads it.
-/

namespace Gwsdb.Scan

/-! ## Constants and configuration -/

def second : Duration := 1000000000
def minute : Duration := 60 * second
def hour : Duration := 60 * minute

/-- `recheckSuccessInterval`: a day and a second. -/
def recheckSuccessInterval : Duration := 24 * hour + second

def knownGoodRefreshInterval : Duration := hour
def maintenanceInterval : Duration := 10 * minute
def pruneRetryInterval : Duration := minute

/-- The fields of `Config` that the steps read. -/
structure Config where
  scanMode : String
  flushInterval : Duration
  flushSize : Nat

/-! ## State -/

/-- `recheck.Result`: the verdict of one probe. -/
structure Result where
  ok : Bool
  rttMs : Int
  reason : String
  detail : String
  mixed : Bool
  deriving DecidableEq, Repr

/-- `ingest.PoolTarget`. -/
structure PoolTarget where
  ip : String
  lastSeen : Time
  deriving DecidableEq, Repr

structure IpState where
  lastRTT : Int
  lastSeen : Time
  failTimes : Nat
  deriving DecidableEq, Repr

structure RecheckState where
  lastOK : Bool
  lastSuccess : Time
  lastResultAt : Time
  deriving DecidableEq, Repr

/-- The fields of `Scanner`. `flushReady` says whether the one-slot channel holds a token; `knownGood` is `none` while the map is
nil. -/
structure Scanner where
  checks : List IPCheck
  inFlightChecks : List IPCheck
  pool : String → Option IpState
  scannedCount : Nat
  lastMaintenanceAt : Time
  nextPruneRetryAt : Time
  flushReady : Bool
  pruneIPs : List String
  recheckStates : String → Option RecheckState
  knownGood : Option (List String)
  knownGoodFetchedAt : Time
  scanProbes : Nat
  scanFound : Nat
  recheckProbes : Nat
  recheckFound : Nat
  recheckSuppressed : Nat

/-- `New`. -/
def Scanner.new : Scanner where
  checks := []
  inFlightChecks := []
  pool := fun _ => none
  scannedCount := 0
  lastMaintenanceAt := 0
  nextPruneRetryAt := 0
  flushReady := false
  pruneIPs := []
  recheckStates := fun _ => none
  knownGood := none
  knownGoodFetchedAt := 0
  scanProbes := 0
  scanFound := 0
  recheckProbes := 0
  recheckFound := 0
  recheckSuppressed := 0

/-! ## The workers' and the feeders' critical sections -/

/-- `sourcePrefix`. -/
def sourcePrefix (ok : Bool) (source reason : String) : String :=
  if ok then source ++ ":ok" else source ++ ":" ++ reason

/-- The check that `recordResultLocked` appends. -/
def mkCheck (cfg : Config) (ip : String) (result : Result) (now : Time) (source : String) : IPCheck where
  ip := ip
  ok := result.ok
  rttMs := result.rttMs
  reason := sourcePrefix result.ok source result.reason
  detail := result.detail
  checkedAt := now
  scanMode := cfg.scanMode

/-- The diagnostics of one IP after a result. -/
def diagnose (st : Option IpState) (result : Result) (now : Time) : Option IpState :=
  if result.ok then some { lastRTT := result.rttMs, lastSeen := now, failTimes := 0 }
  else st.map fun st => { st with failTimes := st.failTimes + 1 }

/-- `recordResultLocked`. A full buffer offers a token to `flushReady`, which keeps one. -/
def recordResultLocked (cfg : Config) (s : Scanner) (ip : String) (result : Result) (persist : Bool) (now : Time)
    (source : String) : Scanner :=
  let checks := if persist then s.checks ++ [mkCheck cfg ip result now source] else s.checks
  { s with
    scannedCount := s.scannedCount + 1
    checks := checks
    flushReady := s.flushReady || (persist && decide (cfg.flushSize ≤ checks.length))
    pool := Function.update s.pool ip (diagnose (s.pool ip) result now) }

/-- The state of an IP after a scan result. A failure of an IP without a state leaves it without one. -/
def scanned (st : Option RecheckState) (ok : Bool) (now : Time) : Option RecheckState :=
  if ok then some { lastOK := true, lastSuccess := now, lastResultAt := now }
  else st.map fun st => { st with lastOK := false, lastResultAt := now }

/-- The locked part of `record`. -/
def record (cfg : Config) (s : Scanner) (ip : String) (result : Result) (now : Time) : Scanner :=
  let s := recordResultLocked cfg s ip result true now "scan"
  { s with recheckStates := Function.update s.recheckStates ip (scanned (s.recheckStates ip) result.ok now) }

/-- The state that `recordRecheck` decides on. -/
def recheckStateOf (s : Scanner) (target : PoolTarget) : RecheckState :=
  (s.recheckStates target.ip).getD { lastOK := true, lastSuccess := target.lastSeen, lastResultAt := target.lastSeen }

/-- Whether `recordRecheck` persists: every failure, and a success on recovery or when the last one is a day old. -/
def persists (state : RecheckState) (ok : Bool) (now : Time) : Bool :=
  !ok || !state.lastOK || decide (state.lastSuccess = 0) || decide (state.lastSuccess + recheckSuccessInterval ≤ now)

/-- The state of an IP after a recheck. -/
def rechecked (state : RecheckState) (ok : Bool) (persist : Bool) (now : Time) : RecheckState where
  lastOK := ok
  lastSuccess := if ok && persist then now else state.lastSuccess
  lastResultAt := now

/-- The locked part of `recordRecheck`. -/
def recordRecheck (cfg : Config) (s : Scanner) (target : PoolTarget) (result : Result) (now : Time) : Scanner :=
  let state := recheckStateOf s target
  let persist := persists state result.ok now
  let s := recordResultLocked cfg s target.ip result persist now "recheck"
  { s with
    recheckSuppressed := if persist then s.recheckSuppressed else s.recheckSuppressed + 1
    recheckStates := Function.update s.recheckStates target.ip (some (rechecked state result.ok persist now)) }

/-- One check entered among the newest pending checks: it replaces an older one of its IP. -/
def addPending (pending : String → Option IPCheck) (check : IPCheck) : String → Option IPCheck :=
  match pending check.ip with
  | none => Function.update pending check.ip (some check)
  | some previous =>
    if previous.checkedAt < check.checkedAt then Function.update pending check.ip (some check) else pending

/-- The newest pending check of each IP; of several with one time, the first. -/
def pendingOf (checks : List IPCheck) : String → Option IPCheck := checks.foldl addPending fun _ => none

/-- The state of a target before the pending checks are looked at. -/
def seedLastSeen (state : Option RecheckState) (lastSeen : Time) : RecheckState :=
  match state with
  | none => { lastOK := true, lastSuccess := lastSeen, lastResultAt := lastSeen }
  | some state =>
    { lastOK := if state.lastResultAt < lastSeen then true else state.lastOK
      lastSuccess := if state.lastSuccess < lastSeen then lastSeen else state.lastSuccess
      lastResultAt := if state.lastResultAt < lastSeen then lastSeen else state.lastResultAt }

/-- A pending check that is newer than the state. -/
def seedPending (state : RecheckState) (pending : Option IPCheck) : RecheckState :=
  match pending with
  | none => state
  | some check =>
    if state.lastResultAt < check.checkedAt then
      { lastOK := check.ok
        lastSuccess := if check.ok then check.checkedAt else state.lastSuccess
        lastResultAt := check.checkedAt }
    else state

/-- One target of `seedRecheckStates`. -/
def seedTarget (pending : String → Option IPCheck) (states : String → Option RecheckState) (target : PoolTarget) :
    String → Option RecheckState :=
  Function.update states target.ip (some (seedPending (seedLastSeen (states target.ip) target.lastSeen) (pending target.ip)))

/-- `seedRecheckStates`. -/
def seedRecheckStates (s : Scanner) (targets : List PoolTarget) : Scanner :=
  { s with recheckStates := targets.foldl (seedTarget (pendingOf (s.checks ++ s.inFlightChecks))) s.recheckStates }

/-! ## The flusher's parts -/

/-- The first critical section of `flush`: the buffer is taken out and becomes the batch in flight. -/
def drain (s : Scanner) : Scanner :=
  { s with checks := [], inFlightChecks := s.checks, scannedCount := 0 }

/-- `requeue`. -/
def requeue (s : Scanner) (checks : List IPCheck) (scanned : Nat) : Scanner :=
  { s with checks := checks ++ s.checks, inFlightChecks := [], scannedCount := s.scannedCount + scanned }

/-- One accepted check entered in the state of its IP. -/
def mergeCheck (states : String → Option RecheckState) (check : IPCheck) : String → Option RecheckState :=
  let state := (states check.ip).getD { lastOK := false, lastSuccess := 0, lastResultAt := 0 }
  Function.update states check.ip (some
    { lastOK := if state.lastResultAt < check.checkedAt then check.ok else state.lastOK
      lastSuccess := if check.ok ∧ state.lastSuccess < check.checkedAt then check.checkedAt else state.lastSuccess
      lastResultAt := if state.lastResultAt < check.checkedAt then check.checkedAt else state.lastResultAt })

/-- `mergeSubmittedStates`. -/
def mergeSubmittedStates (s : Scanner) (checks : List IPCheck) : Scanner :=
  { s with recheckStates := checks.foldl mergeCheck s.recheckStates, inFlightChecks := [] }

/-- Whether this flush asks for maintenance. -/
def maintenanceOf (s : Scanner) (now : Time) : Bool :=
  (decide (s.lastMaintenanceAt = 0) || decide (s.lastMaintenanceAt + maintenanceInterval ≤ now)) &&
    (decide (s.nextPruneRetryAt = 0) || decide (s.nextPruneRetryAt ≤ now))

/-- The first success of each IP, in the order of the checks. State: the IPs seen and the results so far. -/
def addSuccess (st : List String × List ScanResult) (c : IPCheck) : List String × List ScanResult :=
  if c.ok ∧ c.ip ∉ st.1 then (c.ip :: st.1, st.2 ++ [⟨c.ip, c.rttMs⟩]) else st

/-- The hit list of a flush. -/
def resultsOf (checks : List IPCheck) : List ScanResult := (checks.foldl addSuccess ([], [])).2

/-- The rows a flush submits: the filtered checks under the scanner's mode. -/
def rowsOf (cfg : Config) (checks : List IPCheck) (knownGood : List String) (now : Time) : List IPCheck :=
  (filterChecks (resultsOf checks) checks knownGood now).map fun c => { c with scanMode := cfg.scanMode }

/-- `pruneCandidates`: the accumulated IPs and those of the rows, sorted. -/
def pruneCandidates (s : Scanner) (rows : List IPCheck) (maintenance : Bool) : List String :=
  if maintenance then ((rows.map IPCheck.ip).foldl (fun all ip => all.insert ip) s.pruneIPs).insertionSort (· ≤ ·) else []

/-- `recordPruneCandidates`. -/
def recordPruneCandidates (s : Scanner) (rows : List IPCheck) (maintenance : Bool) : Scanner :=
  { s with
    pruneIPs := if maintenance then [] else (rows.map IPCheck.ip).foldl (fun all ip => all.insert ip) s.pruneIPs }

/-- `submitPayload`: what `Submit` posts. -/
structure SubmitPayload where
  checks : List IPCheck
  maintenance : Bool
  pruneIPs : List String
  deriving DecidableEq, Repr

/-- What comes of a submission: an error on the way or a status that is not 200, or the body of a 200, which may be
unreadable and may hold `pruneOk`. -/
inductive Response
  | failed
  | unreadable
  | body (pruneOk : Option Bool)

/-- `Submit`: none is an error. A 200 means that the checks are stored; what became of the pruning is unknown when the body is
unreadable. -/
def Submit : Response → Option Bool
  | .failed => none
  | .unreadable => some false
  | .body pruneOk => some (pruneOk.getD true)

/-- What `flush` does to its own fields after `Submit` returned `pruneOK` without an error. -/
def submitted (s : Scanner) (rows : List IPCheck) (maintenance pruneOK : Bool) (now : Time) : Scanner :=
  let s := if maintenance && pruneOK then { s with lastMaintenanceAt := now, nextPruneRetryAt := 0 } else s
  let s := recordPruneCandidates s rows (maintenance && pruneOK)
  if maintenance && !pruneOK then { s with nextPruneRetryAt := now + pruneRetryInterval } else s

/-- The end of a flush that succeeded: the accepted rows are merged and the discoveries join the known-good set. -/
def accepted (s : Scanner) (checks rows : List IPCheck) : Scanner :=
  let s := mergeSubmittedStates s rows
  { s with knownGood := s.knownGood.map fun known => (resultsOf checks).foldl (fun known r => known.insert r.ip) known }

/-! ## The processes -/

/-- A probe with a verdict: of a scan worker on an address, or of a recheck worker on a target. -/
inductive Probe
  | scan (ip : String) (result : Result)
  | recheck (target : PoolTarget) (result : Result)
  deriving DecidableEq

/-- The address a probe was made of. -/
def Probe.ip : Probe → String
  | .scan ip _ => ip
  | .recheck target _ => target.ip

def Probe.result : Probe → Result
  | .scan _ result => result
  | .recheck _ result => result

/-- The case of `runFlusher`'s select, or the attempt of `flushFinal`, that called `flush`. -/
inductive Caller
  | ticker
  | wake
  | retry
  | final
  deriving DecidableEq

/-- A batch taken out of the buffer: its checks, the probe count taken with it, and who called. -/
structure Batch where
  checks : List IPCheck
  scanned : Nat
  caller : Caller

/-- Where the flusher stands. `drained`: after the first critical section. `fetching`: before the known-good set is looked at.
`submitting`: before `Submit`. `failed`: before `requeue`. `merging`: `Submit` returned without an error. -/
inductive FlushPC
  | waiting
  | drained (b : Batch)
  | fetching (b : Batch) (maintenance : Bool)
  | submitting (b : Batch) (maintenance : Bool)
  | failed (b : Batch)
  | merging (b : Batch) (rows : List IPCheck)

/-- The locals of `runFlusher`, and the attempt of `flushFinal`: `0` while `runFlusher` runs, `4` when the process is over. -/
structure Loop where
  backoff : Duration
  retry : Bool
  wake : Bool
  attempt : Nat

/-- What a run has done, in order: the checks persisted, the number of results recorded, the batches whose flush returned success,
the rows whose submission was accepted, every request with its reply, and the targets seeded. -/
structure History where
  persisted : List IPCheck
  recorded : Nat
  returned : List (List IPCheck)
  accepted : List IPCheck
  requests : List (SubmitPayload × Option Bool)
  seeded : List PoolTarget

/-- The process: the shared state, the workers that have read their clock and wait for the mutex, and the flusher. -/
structure Process where
  scanner : Scanner
  readings : List (Probe × Time)
  flusher : FlushPC
  loop : Loop
  history : History

/-- The process when `Run` starts. -/
def Process.start : Process where
  scanner := Scanner.new
  readings := []
  flusher := .waiting
  loop := { backoff := 0, retry := false, wake := true, attempt := 0 }
  history := { persisted := [], recorded := 0, returned := [], accepted := [], requests := [], seeded := [] }

/-- `scheduleRetry`. -/
def Loop.scheduleRetry (cfg : Config) (l : Loop) : Loop :=
  { l with
    backoff := if l.backoff = 0 then min cfg.flushInterval minute else min (l.backoff * 2) minute
    retry := true
    wake := false }

/-- `resetBackoff`. -/
def Loop.resetBackoff (l : Loop) : Loop := { l with backoff := 0, retry := false, wake := true }

/-- What the caller of `flush` does with its answer. -/
def Loop.returned (cfg : Config) (l : Loop) (caller : Caller) (ok : Bool) (pruneIPs : List String) : Loop :=
  match caller with
  | .final => if ok && pruneIPs.isEmpty then { l with attempt := 4 } else { l with attempt := l.attempt + 1 }
  | .retry => if ok then l.resetBackoff else l.scheduleRetry cfg
  | _ => if ok then l else l.scheduleRetry cfg

/-- The steps: a worker reads its clock with a verdict in hand, or drops a mixed one; a worker takes the mutex; a feeder seeds;
the flusher is called, and goes through `flush`; the process shuts down, and `flushFinal` gives up when its time is over. The
clock is read with a time that is not Go's zero time. -/
inductive Action
  | read (p : Probe) (now : Time)
  | mixed (p : Probe)
  | enter (i : Nat)
  | seed (targets : List PoolTarget)
  | flush (caller : Caller)
  | decide (now : Time)
  | fetchKnownGood (now : Time) (reply : Option (List String)) (fetchedAt : Time)
  | submit (now : Time) (reply : Option Bool) (doneAt : Time)
  | requeue
  | merge
  | shutdown
  | giveUp

/-- Whether `flush` can be called so. The final attempts run after every worker has stopped. -/
def callable (p : Process) : Caller → Bool
  | .ticker => decide (p.loop.attempt = 0) && !p.loop.retry
  | .wake => decide (p.loop.attempt = 0) && p.loop.wake && p.scanner.flushReady
  | .retry => decide (p.loop.attempt = 0) && p.loop.retry
  | .final => decide (1 ≤ p.loop.attempt ∧ p.loop.attempt ≤ 3)

/-- What the caller does to the shared fields before `flush`: a wake takes the token, a final attempt
clears the prune cooldown. -/
def called (s : Scanner) : Caller → Scanner
  | .wake => { s with flushReady := false }
  | .final => { s with nextPruneRetryAt := 0 }
  | _ => s

/-- The probe counters, which are not under the mutex. -/
def count (s : Scanner) : Probe → Scanner
  | .scan _ result =>
    { s with
      scanProbes := s.scanProbes + 1
      scanFound := if !result.mixed && result.ok then s.scanFound + 1 else s.scanFound }
  | .recheck _ result =>
    { s with
      recheckProbes := s.recheckProbes + 1
      recheckFound := if !result.mixed && result.ok then s.recheckFound + 1 else s.recheckFound }

/-- The critical section of a worker. -/
def enterLocked (cfg : Config) (s : Scanner) (probe : Probe) (now : Time) : Scanner :=
  match probe with
  | .scan ip result => record cfg s ip result now
  | .recheck target result => recordRecheck cfg s target result now

/-- A worker may probe: any address for a scan worker, a seeded target for a recheck worker; no worker runs after shutdown. -/
def probeable (p : Process) : Probe → Bool
  | .scan _ _ => decide (p.loop.attempt = 0)
  | .recheck target _ => decide (p.loop.attempt = 0) && decide (target ∈ p.history.seeded)

/-- One step of the process. -/
def next (cfg : Config) (p : Process) : Action → Option Process
  | .read probe now =>
    if probeable p probe ∧ probe.result.mixed = false ∧ now ≠ 0 then
      some { p with scanner := count p.scanner probe, readings := p.readings ++ [(probe, now)] }
    else none
  | .mixed probe =>
    if probeable p probe ∧ probe.result.mixed = true then some { p with scanner := count p.scanner probe } else none
  | .enter i =>
    match p.readings[i]? with
    | none => none
    | some (probe, now) =>
      let s := enterLocked cfg p.scanner probe now
      some { p with
        scanner := s
        readings := p.readings.eraseIdx i
        history :=
          { p.history with
            persisted := p.history.persisted ++ s.checks.drop p.scanner.checks.length
            recorded := p.history.recorded + 1 } }
  | .seed targets =>
    if p.loop.attempt = 0 then
      some { p with
        scanner := seedRecheckStates p.scanner targets
        history := { p.history with seeded := p.history.seeded ++ targets } }
    else none
  | .flush caller =>
    match p.flusher with
    | .waiting =>
      if callable p caller then
        some { p with
          scanner := drain (called p.scanner caller)
          flusher := .drained ⟨p.scanner.checks, p.scanner.scannedCount, caller⟩ }
      else none
    | _ => none
  | .decide now =>
    match p.flusher with
    | .drained b =>
      let maintenance := maintenanceOf p.scanner now
      if b.checks.length = 0 ∧ !(maintenance && !p.scanner.pruneIPs.isEmpty) then
        some { p with
          flusher := .waiting
          loop := p.loop.returned cfg b.caller true p.scanner.pruneIPs
          history := { p.history with returned := p.history.returned ++ [b.checks] } }
      else some { p with flusher := .fetching b maintenance }
    | _ => none
  | .fetchKnownGood now reply fetchedAt =>
    match p.flusher with
    | .fetching b maintenance =>
      if p.scanner.knownGood = none ∨ p.scanner.knownGoodFetchedAt + knownGoodRefreshInterval < now then
        match reply with
        | some fresh =>
          some { p with
            scanner := { p.scanner with knownGood := some fresh, knownGoodFetchedAt := fetchedAt }
            flusher := .submitting b maintenance }
        | none =>
          if p.scanner.knownGood = none then some { p with flusher := .failed b }
          else some { p with flusher := .submitting b maintenance }
      else some { p with flusher := .submitting b maintenance }
    | _ => none
  | .submit now reply doneAt =>
    match p.flusher with
    | .submitting b maintenance =>
      let rows := rowsOf cfg b.checks (p.scanner.knownGood.getD []) now
      let request : SubmitPayload := ⟨rows, maintenance, pruneCandidates p.scanner rows maintenance⟩
      let history := { p.history with requests := p.history.requests ++ [(request, reply)] }
      match reply with
      | none => some { p with flusher := .failed b, history := history }
      | some pruneOK =>
        some { p with
          scanner := submitted p.scanner rows maintenance pruneOK doneAt
          flusher := .merging b rows
          history := { history with accepted := history.accepted ++ rows } }
    | _ => none
  | .requeue =>
    match p.flusher with
    | .failed b =>
      some { p with
        scanner := requeue p.scanner b.checks b.scanned
        flusher := .waiting
        loop := p.loop.returned cfg b.caller false p.scanner.pruneIPs }
    | _ => none
  | .merge =>
    match p.flusher with
    | .merging b rows =>
      some { p with
        scanner := accepted p.scanner b.checks rows
        flusher := .waiting
        loop := p.loop.returned cfg b.caller true p.scanner.pruneIPs
        history := { p.history with returned := p.history.returned ++ [b.checks] } }
    | _ => none
  | .shutdown =>
    match p.flusher with
    | .waiting =>
      if p.loop.attempt = 0 ∧ p.readings = [] then
        some { p with scanner := { p.scanner with lastMaintenanceAt := 0 }, loop := { p.loop with attempt := 1 } }
      else none
    | _ => none
  | .giveUp =>
    match p.flusher with
    | .waiting => if 1 ≤ p.loop.attempt then some { p with loop := { p.loop with attempt := 4 } } else none
    | _ => none

end Gwsdb.Scan
