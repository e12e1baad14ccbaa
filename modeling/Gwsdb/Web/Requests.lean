import Gwsdb.Net.IpAddr
import Gwsdb.Store.Programs

/-!
# The handlers

The handlers of `functions/` that write checks and the pool (`/ingest`, `/check`, `/recheck/result`), the background work that
does so, and `/api/pool/changes`, as programs of atomic calls. A request body is given by the values read from it, its times as
the dates they parse to; what is thrown ends a handler with its text.
-/

namespace Gwsdb.Web

open Gwsdb.Store
open Gwsdb.Net (normalizeIPAddress)

/-- What a handler answers. -/
inductive Response where
  /-- A text with a status. -/
  | text (status : Nat) (message : String)
  /-- The body of `/ingest`. -/
  | ingested (checks : Nat) (pruneOk : Bool)
  /-- The empty body of `/recheck/result`. -/
  | saved
  /-- A probe's result, relayed. -/
  | probed (ok : Bool)
  /-- `/api/pool/changes`: the snapshot must be replaced. -/
  | reset (version : Nat)
  /-- `/api/pool/changes`: the rows changed. -/
  | changes (data : PoolData)
  /-- `/api/pool/changes`: a writer came in between. -/
  | retry
  /-- The end of background work. -/
  | finished
  deriving DecidableEq

/-- `normalizeIPAddress` on strings. -/
def normalize (ip : String) : Option String := (normalizeIPAddress ip.toList).map String.ofList

/-! ## `/ingest` -/

/-- `WireCheck`. `ip` is none where the body has no string there; `rttMs`, `reason` and `detail` are
none where they are missing. -/
structure WireCheck where
  ip : Option String
  ok : Bool
  rttMs : Option Int
  reason : Option String
  detail : Option String
  checkedAt : JsDate
  scanMode : Bindable
  deriving DecidableEq

/-- `IngestBody`. `checks` is none where it is no array; `pruneIPs` is none where it is missing, and `some none`
where it is no array of strings. -/
structure IngestBody where
  checks : Option (List WireCheck)
  maintenance : Option Bool
  pruneIPs : Option (Option (List String))
  deriving DecidableEq

/-- The row of a check whose IP is valid. -/
def toCheckRow (c : WireCheck) : Option CheckRow :=
  (c.ip.bind normalize).map fun ip =>
    { ip, ok := c.ok, rttMs := if c.ok then c.rttMs.filter (· ≠ 0) else none, reason := c.reason.filter (· ≠ ""),
      detail := c.detail.filter (· ≠ ""), checkedAt := c.checkedAt, scanMode := c.scanMode }

/-- The rows of a body and the IPs it asks to prune, or the answer to a body that is refused. -/
def readIngest (body : IngestBody) : Except Response (List CheckRow × Option (List String)) :=
  match body.checks with
  | none => .error (.text 400 "body must include 'checks'")
  | some checks =>
    if body.pruneIPs = some none then .error (.text 400 "pruneIPs must be an array of strings")
    else if checks.any fun c => (c.ip.bind normalize).isNone then .error (.text 400 "checks contain an invalid IP")
    else
      let pruneIPs := body.pruneIPs.join
      if (pruneIPs.getD []).any fun ip => (normalize ip).isNone then .error (.text 400 "pruneIPs contain an invalid IP")
      else .ok (coalesceCheckRows (checks.filterMap toCheckRow), pruneIPs.map (·.filterMap normalize))

/-- The checks of a body stored and the pool updated, at the clock readings of the two. -/
def ingestRows (insertAt poolAt : Int) (rows : List CheckRow) : Program Unit := do
  insertCheckRows insertAt rows
  updatePoolBatch poolAt rows

/-- `handleIngest`. A body without `pruneIPs` is pruned in the background, which is a task of its own. -/
def handleIngest (insertAt poolAt : Int) (body : Option IngestBody) : Program Response :=
  match body with
  | none => pure (.text 400 "invalid JSON body")
  | some body =>
    match readIngest body with
    | .error response => pure response
    | .ok (rows, pruneIPs) => do
      ingestRows insertAt poolAt rows
      if body.maintenance ≠ some false then pruneCheckHistory (pruneIPs.getD [])
      return .ingested rows.length true

/-! ## `/check` and `/recheck/result` -/

/-- `ProbeResponse`. -/
structure ProbeResponse where
  ok : Bool
  rttMs : Option Int
  reason : Option String
  detail : Option String
  mixed : Bool
  deriving DecidableEq

/-- `DEFAULT_SCAN_MODE`. -/
def DEFAULT_SCAN_MODE : String := "SNI"

/-- A single check saved, the pool updated and the history pruned. -/
def storeCheck (r : RecheckResult) : Program Unit := do
  saveRecheckResult r
  updatePoolForCheck r.ip r.ok r.rttMs r.checkedAt r.scanMode
  pruneCheckHistory [r.ip]

/-- `/check` from the probe's answer on. What comes before (country, rate limit, ASN gate, probe) touches none of these tables. -/
def handleCheck (checkedAt : Int) (ip : String) (result : ProbeResponse) : Program Response :=
  match normalize ip with
  | none => pure (.text 400 "invalid ip")
  | some ip =>
    if result.mixed then pure (.probed result.ok)
    else do
      storeCheck
        { ip, ok := result.ok, rttMs := result.rttMs, reason := result.reason, detail := result.detail,
          checkedAt := some checkedAt, scanMode := .text DEFAULT_SCAN_MODE }
      return .probed result.ok

/-- `ResultBody`. `ok` is none where it is no boolean, `checkedAt` where it is missing or empty. -/
structure ResultBody where
  ip : String
  ok : Option Bool
  rttMs : Option Int
  reason : Option String
  detail : Option String
  scanMode : Bindable
  checkedAt : Option JsDate
  deriving DecidableEq

/-- The check of a body, or the answer to a body that is refused. -/
def readResult (body : ResultBody) : Except Response RecheckResult :=
  match body.ok, body.checkedAt with
  | some ok, some checkedAt =>
    if body.ip = "" then .error (.text 400 "missing required fields")
    else match normalize body.ip with
      | none => .error (.text 400 "invalid ip")
      | some ip =>
        if checkedAt.isNone then .error (.text 400 "invalid checkedAt")
        else .ok
          { ip, ok, rttMs := body.rttMs, reason := body.reason, detail := body.detail, checkedAt, scanMode := body.scanMode }
  | _, _ => .error (.text 400 "missing required fields")

/-- `/recheck/result`. -/
def handleResult (body : Option ResultBody) : Program Response :=
  match body with
  | none => pure (.text 400 "invalid JSON body")
  | some body =>
    match readResult body with
    | .error response => pure response
    | .ok r => do
      storeCheck r
      return .saved

/-! ## `/api/pool/changes` -/

/-- `cachedOverviewAggregates`: the totals, cached ones where the cache has them. -/
def cachedOverviewAggregates (totalsHit : Bool) : Program (Nat × Nat) := do
  let cached ← if totalsHit then perform .totalsMatch else pure none
  match cached with
  | some totals => return totals
  | none =>
    let totals ← perform .aggregates
    let _ ← perform (.totalsPut totals)
    return totals

/-- `overview`: the totals and the last check. -/
def overview (totalsHit : Bool) : Program ((Nat × Nat) × Option (String × Option String)) := do
  let totals ← cachedOverviewAggregates totalsHit
  let lastCheck ← perform .lastCheck
  return (totals, lastCheck)

/-- The body of an answer with rows. -/
def changesBody (version : Nat) (rows : List JoinedRow) (stats : (Nat × Nat) × Option (String × Option String)) : PoolData where
  metadata :=
    { version, count := none, scanMode := (stats.2.bind (·.2)).getD "", totalKnownIPs := stats.1.1, totalChecks := stats.1.2,
      lastCheckAt := formatTime (stats.2.bind fun c => fromSQLiteDateTime (some c.1)) }
  ips := rows.map JoinedRow.toIPRow

/-- The answer computed from the rows and statistics, and put in the edge cache, if no writer came in between. -/
def loadChanges (since version : Nat) (totalsHit : Bool) : Program Response := do
  let rows ← perform (.listKnownIPsChanged since version)
  let stats ← overview totalsHit
  let now ← perform .poolVersion
  if now ≠ version then return .retry
  let _ ← perform (.edgePut since version (changesBody version rows stats))
  return .changes (changesBody version rows stats)

/-- The cached answer, where the cache answers, or the one computed. -/
def cachedChanges (since version : Nat) (edgeHit totalsHit : Bool) : Program Response :=
  if edgeHit then do
    let cached ← perform (.edgeMatch since version)
    match cached with
    | some data => return .changes data
    | none => loadChanges since version totalsHit
  else loadChanges since version totalsHit

/-- `/api/pool/changes` for a `since` that is a non-negative integer. A cache may always miss: `edgeHit` and `totalsHit` say
whether it answers when it has an entry. -/
def handleChanges (since : Nat) (edgeHit totalsHit : Bool) : Program Response := do
  let version ← perform .poolVersion
  if version < since then return .reset version
  let resetVersion ← perform .poolResetVersion
  if since < resetVersion then return .reset version
  if since = version then return .changes ⟨⟨version, none, "", 0, 0, ""⟩, []⟩
  cachedChanges since version edgeHit totalsHit

/-! ## Tasks -/

/-- What the site is asked to do. -/
inductive Task where
  | ingest (insertAt poolAt : Int) (body : Option IngestBody)
  | check (checkedAt : Int) (ip : String) (result : ProbeResponse)
  | result (body : Option ResultBody)
  /-- The background pruning of an `/ingest` of the old protocol. -/
  | prune (ips : List String)
  | savePTR (e : PTRCacheEntry)
  | savePTRBatch (entries : List PTRCacheEntry)
  | changes (since : Nat) (edgeHit totalsHit : Bool)
  deriving DecidableEq

/-- The program of a task. -/
def start : Task → Program Response
  | .ingest insertAt poolAt body => handleIngest insertAt poolAt body
  | .check checkedAt ip result => handleCheck checkedAt ip result
  | .result body => handleResult body
  | .prune ips => do
    pruneCheckHistory ips
    return .finished
  | .savePTR e => do
    Store.savePTR e
    return .finished
  | .savePTRBatch entries => do
    Store.savePTRBatch entries
    return .finished
  | .changes since edgeHit totalsHit => handleChanges since edgeHit totalsHit

/-- The site without data. -/
def emptySite : Store.Site := ⟨Database.empty, Keyed.Table.empty, none⟩

end Gwsdb.Web
