import Gwsdb.Lib.Program
import Gwsdb.Store.Date
import Gwsdb.Store.Database
import Gwsdb.Web.Row

/-!
# Reads, caches and calls

The queries of `src/store.ts` that read, the rows of `src/pool.ts`, and the service the handlers call: each D1 statement or batch,
and each use of the edge cache, is one atomic call.
-/

namespace Gwsdb.Store

open Keyed (Table)

/-! ## Rows of the pool -/

/-- `splitStrings`: the parts of a text between the separators `; `; none of the empty text. -/
def splitStrings (joined : String) : List String :=
  if joined = "" then [] else (parts joined.toList []).map String.ofList
where
  /-- The parts of a text, the characters of the current one given in reverse. -/
  parts : List Char → List Char → List (List Char)
    | [], part => [part.reverse]
    | ';' :: ' ' :: s, part => part.reverse :: parts s []
    | c :: s, part => parts s (c :: part)

/-- `joinStrings`. -/
def joinStrings (values : List String) : String := "; ".intercalate values

/-- A row of `ip_pool` joined with the hostnames of `ptr_cache`. -/
structure JoinedRow where
  ip : String
  row : PoolRow
  ptrHostname : String

/-- `statusFor`. -/
def statusFor (row : PoolRow) : String :=
  match row.lastCheckOk with
  | none => "-"
  | some ok => if ok then "Reachable" else "Unreachable"

/-- `toIPRow` of `rowToIPStatus`, without the country. -/
def JoinedRow.toIPRow (j : JoinedRow) : IPRow where
  ip := j.ip
  revision := j.row.revision
  ptrList := splitStrings j.ptrHostname
  status := statusFor j.row
  firstSeen := formatTime (fromSQLiteDateTime j.row.firstSeen)
  lastSeen := formatTime (fromSQLiteDateTime j.row.lastSeen)
  lastRttMs := j.row.lastRttMs.getD 0

namespace Database

/-- `ip_pool LEFT JOIN ptr_cache` for a row of the pool. -/
def joinRow (db : Database) (ip : String) (row : PoolRow) : JoinedRow :=
  ⟨ip, row, ((db.ptr.get? ip).bind (·.ptrHostname)).getD ""⟩

/-- The joined row of an IP, as the pool endpoints show it. -/
def joined (db : Database) (ip : String) : Option IPRow := (db.pool.get? ip).map fun row => (db.joinRow ip row).toIPRow

/-- `listKnownIPsChanged`: the rows of a range of revisions, the first excluded. -/
def listKnownIPsChanged (db : Database) (after through : Nat) : List JoinedRow :=
  ((db.pool.entries.filter fun e => after < e.2.revision ∧ e.2.revision ≤ through).insertionSort fun a b =>
    a.2.revision < b.2.revision ∨ a.2.revision = b.2.revision ∧ a.1 ≤ b.1).map fun e => db.joinRow e.1 e.2

/-- `isKnownGood`. -/
def isKnownGood (db : Database) (ip : String) : Bool := (db.pool.get? ip).isSome

/-- The listed IPs of the pool whose `history_count` exceeds the retention. -/
def overLimit (db : Database) (ips : List String) (retention : Nat) : List String :=
  (db.pool.entries.filter fun e => e.1 ∈ ips ∧ retention < e.2.historyCount).map Prod.fst

/-- The listed IPs of the pool with a full history and no reachable check in it. -/
def dead (db : Database) (ips : List String) (retention : Nat) : List String :=
  (db.pool.entries.filter fun e => e.1 ∈ ips ∧ retention ≤ e.2.historyCount ∧ ¬db.Reachable e.1).map Prod.fst

/-- The totals of `overview`: the rows of the pool and the sum of their `times_seen`. -/
def aggregates (db : Database) : Nat × Nat := (db.pool.entries.length, (db.pool.entries.map fun e => e.2.timesSeen).sum)

/-- Time and mode of the check with the greatest id. -/
def lastCheck (db : Database) : Option (String × Option String) :=
  db.checks.rows.getLast?.map fun r => (r.checkedAt, r.scanMode)

/-- `ipHistoryVersion`: the greatest id among the checks of an IP. -/
def ipHistoryVersion (db : Database) (ip : String) : Nat := (db.checks.of ip).foldl (fun m r => max m r.id) 0

end Database

/-- `IPCheckHistoryRow`. -/
structure IPCheckHistoryRow where
  ip : String
  ok : Bool
  rttMs : Int
  reason : String
  detail : String
  checkedAt : Option JsDate
  scanMode : String
  deriving DecidableEq

/-- A check as the history shows it. -/
def IpCheck.toHistoryRow (r : IpCheck) : IPCheckHistoryRow where
  ip := r.ip
  ok := r.ok
  rttMs := r.rttMs.getD 0
  reason := r.reason.getD ""
  detail := r.detail.getD ""
  checkedAt := fromSQLiteDateTime (some r.checkedAt)
  scanMode := r.scanMode.getD ""

/-- `ipHistory`: one page of the checks of an IP, newest first. -/
def Database.ipHistory (db : Database) (ip : String) (limit offset : Nat) : List IPCheckHistoryRow :=
  (((db.checks.newestFirst ip).drop offset).take limit).map IpCheck.toHistoryRow

/-! ## Calls -/

/-- The state the handlers share: the database, the cached answers of `/api/pool/changes` under their two versions, and the cached
totals of `overview`. -/
structure Site where
  db : Database
  edge : Table (Nat × Nat) PoolData
  totals : Option (Nat × Nat)

/-- An atomic call. -/
inductive Call where
  | batch (stmts : List Stmt)
  | poolVersion
  | poolResetVersion
  | listKnownIPsChanged (after through : Nat)
  | isKnownGood (ip : String)
  | overLimit (ips : List String) (retention : Nat)
  | dead (ips : List String) (retention : Nat)
  | aggregates
  | lastCheck
  | edgeMatch (since v : Nat)
  | edgePut (since v : Nat) (data : PoolData)
  | totalsMatch
  | totalsPut (totals : Nat × Nat)

/-- What a call replies. -/
abbrev Reply : Call → Type
  | .batch _ => List Nat
  | .poolVersion => Nat
  | .poolResetVersion => Nat
  | .listKnownIPsChanged _ _ => List JoinedRow
  | .isKnownGood _ => Bool
  | .overLimit _ _ => List String
  | .dead _ _ => List String
  | .aggregates => Nat × Nat
  | .lastCheck => Option (String × Option String)
  | .edgeMatch _ _ => Option PoolData
  | .edgePut _ _ _ => Unit
  | .totalsMatch => Option (Nat × Nat)
  | .totalsPut _ => Unit

/-- The service: the reply of a call and the state after it. -/
def serve : Interleave.Service Call Reply Site
  | .batch stmts, s => ((s.db.batch stmts).1, { s with db := (s.db.batch stmts).2 })
  | .poolVersion, s => (s.db.version, s)
  | .poolResetVersion, s => (s.db.resetVersion, s)
  | .listKnownIPsChanged after through, s => (s.db.listKnownIPsChanged after through, s)
  | .isKnownGood ip, s => (s.db.isKnownGood ip, s)
  | .overLimit ips retention, s => (s.db.overLimit ips retention, s)
  | .dead ips retention, s => (s.db.dead ips retention, s)
  | .aggregates, s => (s.db.aggregates, s)
  | .lastCheck, s => (s.db.lastCheck, s)
  | .edgeMatch since v, s => (s.edge.get? (since, v), s)
  | .edgePut since v data, s => ((), { s with edge := s.edge.put (since, v) data })
  | .totalsMatch, s => (s.totals, s)
  | .totalsPut totals, s => ((), { s with totals := some totals })

/-- A program of calls; an error is the text of what was thrown. -/
abbrev Program (α : Type) := Interleave.Prog Call Reply String α

/-- One call. -/
abbrev perform (e : Call) : Program (Reply e) := Interleave.Prog.perform e

end Gwsdb.Store
