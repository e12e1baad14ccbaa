import Gwsdb.Lib.Chunks
import Gwsdb.Store.CheckRows
import Gwsdb.Store.Site

/-!
# The writers of the store

The functions of `src/store.ts` that write `ip_checks`, `ip_pool` and `ptr_cache`, as programs of atomic calls. A value that
cannot be bound stops the program before the batch it is for. Clock readings are arguments.
-/

namespace Gwsdb.Store

open Chunks (chunks)
open Interleave (Prog)

/-- The loop of the writers of many rows: the rows of each chunk are bound, then their statements run as one batch. -/
def inChunks {α β : Type} (size : Nat) (bind : α → Except String β) (statements : List β → List Stmt) (rows : List α) :
    Program Unit :=
  (chunks size rows).forM fun chunk => do
    let bound ← Prog.ofExcept (chunk.mapM bind)
    let _ ← perform (.batch (statements bound))

/-! ## Batches of checks -/

/-- `MAX_BATCH`. -/
def MAX_BATCH : Nat := 500

/-- `FAILURE_DEDUP_WINDOW_MS`: six hours. -/
def FAILURE_DEDUP_WINDOW_MS : Int := 6 * 60 * 60 * 1000

/-- The text of the time before which a failure is not recent, at a clock reading. -/
def dedupCutoff (now : Int) : String := IsoTime.isoText (now - FAILURE_DEDUP_WINDOW_MS)

/-- The insert of a row; one whose IP has a success in the batch is always inserted. -/
def insertCheckStmt (successfulIPs : List String) (cutoff : String) (row : CheckRow) : Except String Stmt := do
  let checkedAt ← toSQLiteDateTime row.checkedAt
  let scanMode ← row.scanMode.bind
  return .insertCheck
    { ip := row.ip, ok := row.ok, rttMs := row.rttMs, reason := row.reason, detail := row.detail, checkedAt, scanMode }
    (row.ok || decide (row.ip ∈ successfulIPs)) cutoff

/-- `insertCheckRows`. -/
def insertCheckRows (now : Int) (rows : List CheckRow) : Program Unit :=
  let successfulIPs := (rows.filter (·.ok)).map (·.ip)
  inChunks MAX_BATCH (insertCheckStmt successfulIPs (dedupCutoff now)) id rows

/-- `POOL_UPSERT_CHUNK`. -/
def POOL_UPSERT_CHUNK : Nat := 400

/-- The latest row of an IP in a batch, and its success. -/
structure UniqueRow where
  latest : CheckRow
  success : Option CheckRow
  deriving DecidableEq

/-- The state of an IP after one more of its coalesced rows. -/
def uniqueRow (row : CheckRow) : Option UniqueRow → UniqueRow
  | none => ⟨row, if row.ok then some row else none⟩
  | some state => ⟨row, if row.ok then some row else state.success⟩

/-- The IPs of a batch in the order they came, each with its latest row and its success. -/
def uniqueRows (rows : List CheckRow) : List UniqueRow :=
  ((coalesceCheckRows rows).foldl (fun byIP row => byIP.alter row.ip fun state => some (uniqueRow row state))
    Keyed.Table.empty).entries.map Prod.snd

/-- The pool statement of an IP. -/
def poolStmt (cutoff : String) (u : UniqueRow) : Except String Stmt := do
  let latestTS ← toSQLiteDateTime u.latest.checkedAt
  match u.success with
  | some success =>
    let successTS ← toSQLiteDateTime success.checkedAt
    let scanMode ← success.scanMode.bind
    return .poolUpsert
      { ip := u.latest.ip, isIPv6 := u.latest.ip.toList.contains ':', scanMode, successTS,
        rttMs := success.rttMs.getD 0, latestTS, latestOk := u.latest.ok }
  | none => return .poolFailure u.latest.ip latestTS cutoff

/-- `updatePoolBatch`. -/
def updatePoolBatch (now : Int) (rows : List CheckRow) : Program Unit :=
  inChunks POOL_UPSERT_CHUNK (poolStmt (dedupCutoff now)) (.bumpPoolRevision :: ·) (uniqueRows rows)

/-! ## Pruning -/

/-- `CHECK_HISTORY_RETENTION`. -/
def CHECK_HISTORY_RETENTION : Nat := 300

/-- `PRUNE_IP_CHUNK`. -/
def PRUNE_IP_CHUNK : Nat := 99

/-- The deletion of the checks beyond the retention. -/
def deleteOld (overLimit : List String) : Program Unit := do
  if overLimit.length > 0 then
    let _ ← perform (.batch [.deleteOldChecks overLimit CHECK_HISTORY_RETENTION, .recount overLimit])

/-- The deletion of pool rows without a reachable check. -/
def evictDead (dead : List String) : Program Unit := do
  if dead.length ≠ 0 then
    let _ ← perform (.batch [.bumpPoolRevision, .markReset, .evict dead])

/-- `pruneCheckHistory`. -/
def pruneCheckHistory (ips : List String) : Program Unit :=
  (chunks PRUNE_IP_CHUNK ips.eraseDups).forM fun chunk => do
    let overLimit ← perform (.overLimit chunk CHECK_HISTORY_RETENTION)
    deleteOld overLimit
    let dead ← perform (.dead chunk CHECK_HISTORY_RETENTION)
    evictDead dead

/-! ## Single checks -/

/-- `RecheckResult`. -/
structure RecheckResult where
  ip : String
  ok : Bool
  rttMs : Option Int
  reason : Option String
  detail : Option String
  checkedAt : JsDate
  scanMode : Bindable
  deriving DecidableEq

/-- The reason stored for a failure. -/
def recheckReason (reason : Option String) : String :=
  match reason with
  | none => "recheck:unknown"
  | some reason =>
    if reason = "" then "recheck:unknown"
    else if "recheck:".toList <+: reason.toList ∨ "scan:".toList <+: reason.toList then reason
    else "recheck:" ++ reason

/-- The row `saveRecheckResult` inserts. -/
def recheckRow (r : RecheckResult) : Except String NewCheck := do
  let checkedAt ← toSQLiteDateTime r.checkedAt
  let scanMode ← r.scanMode.bind
  if r.ok then
    return { ip := r.ip, ok := true, rttMs := r.rttMs, reason := some "recheck:ok", detail := r.detail, checkedAt, scanMode }
  else
    return { ip := r.ip, ok := false, rttMs := none, reason := some (recheckReason r.reason), detail := r.detail,
             checkedAt, scanMode }

/-- The insert of a single check. -/
def insertRecheck (r : RecheckResult) : Program Unit := do
  let row ← Prog.ofExcept (recheckRow r)
  let _ ← perform (.batch [.insertRecheck row])

/-- `saveRecheckResult`: a failure is recorded only of an IP in the pool. -/
def saveRecheckResult (r : RecheckResult) : Program Unit := do
  if r.ok then insertRecheck r
  else
    let known ← perform (.isKnownGood r.ip)
    if known then insertRecheck r

/-- The insert of `updatePoolForCheck`, for a success of an IP the update did not find. -/
def insertPoolRow (ip : String) (rttMs : Option Int) (ts : String) (scanMode : Bindable) : Program Unit := do
  let scanMode ← Prog.ofExcept scanMode.bind
  let _ ← perform (.batch [.bumpPoolRevision, .poolInsert
    { ip, isIPv6 := ip.toList.contains ':', scanMode, successTS := ts, rttMs := rttMs.getD 0, latestTS := ts, latestOk := true }])

/-- `updatePoolForCheck`: an update, and for a success an insert where the update changed nothing. -/
def updatePoolForCheck (ip : String) (ok : Bool) (rttMs : Option Int) (checkedAt : JsDate)
    (scanMode : Bindable) : Program Unit := do
  let ts ← Prog.ofExcept (toSQLiteDateTime checkedAt)
  let results ← perform (.batch [.bumpPoolRevision, .poolCheck ip ts ok (rttMs.getD 0)])
  match results[1]? with
  | none => Prog.fail "pool update result missing"
  | some changes => if changes = 0 ∧ ok then insertPoolRow ip rttMs ts scanMode

/-! ## PTR results -/

/-- `PTRCacheEntry`. -/
structure PTRCacheEntry where
  ip : String
  ptrHostnames : List String
  lookupOk : Bool
  ttlSeconds : Nat
  checkedAt : JsDate
  deriving DecidableEq

/-- The two statements that save a PTR result. -/
def ptrStmts (e : PTRCacheEntry) : Except String (List Stmt) := do
  let checkedAt ← toSQLiteDateTime e.checkedAt
  return [.savePTR e.ip ⟨some (joinStrings e.ptrHostnames), e.lookupOk, e.ttlSeconds, checkedAt⟩, .touchPTR e.ip checkedAt]

/-- `savePTR`. -/
def savePTR (e : PTRCacheEntry) : Program Unit := do
  let statements ← Prog.ofExcept (ptrStmts e)
  let _ ← perform (.batch (.bumpPoolRevision :: statements))

/-- `PTR_BATCH_CHUNK`. -/
def PTR_BATCH_CHUNK : Nat := 400

/-- `savePTRBatch`. -/
def savePTRBatch (entries : List PTRCacheEntry) : Program Unit :=
  inChunks PTR_BATCH_CHUNK ptrStmts (fun statements => .bumpPoolRevision :: statements.flatten) entries

end Gwsdb.Store
