import Gwsdb.Lib.Table
import Mathlib.Data.String.Basic
import Mathlib.Tactic

/-!
# The database

The tables of `migrations/` that hold checks and the pool, and the statements of `src/store.ts` on them. A batch runs its
statements one after the other as one atomic step. `ip_checks` is a list of rows in the order of their ids; `ip_pool` and
`ptr_cache` are tables keyed by IP. Times are texts, and SQLite compares them character by character.
-/

namespace Gwsdb.Store

open Keyed (Table)

/-! ## The history of checks -/

/-- The values of a row of `ip_checks`. -/
structure NewCheck where
  ip : String
  ok : Bool
  rttMs : Option Int
  reason : Option String
  detail : Option String
  checkedAt : String
  scanMode : Option String
  deriving DecidableEq

/-- A row of `ip_checks`. -/
structure IpCheck extends NewCheck where
  id : Nat
  deriving DecidableEq

namespace IpCheck

/-- The row stands before another in the order `checked_at DESC, id DESC`. -/
def Newer (a b : IpCheck) : Prop := b.checkedAt < a.checkedAt ∨ b.checkedAt = a.checkedAt ∧ b.id < a.id

instance (a b : IpCheck) : Decidable (a.Newer b) := inferInstanceAs (Decidable (_ ∨ _))

end IpCheck

/-- `ip_checks`: the rows in the order of their ids, `(ip, checked_at)` unique. -/
structure IpChecks where
  rows : List IpCheck
  ascending : rows.Pairwise fun a b => a.id < b.id
  unique : rows.Pairwise fun a b => a.ip = b.ip → a.checkedAt ≠ b.checkedAt

namespace IpChecks

/-- The table without rows. -/
def empty : IpChecks := ⟨[], List.Pairwise.nil, List.Pairwise.nil⟩

/-- The rows of an IP. -/
def of (t : IpChecks) (ip : String) : List IpCheck := t.rows.filter (·.ip = ip)

/-- The greatest id, zero for the table without rows. -/
def maxId (t : IpChecks) : Nat := (t.rows.getLast?.map (·.id)).getD 0

theorem le_maxId (t : IpChecks) : ∀ r ∈ t.rows, r.id ≤ t.maxId := by
  obtain ⟨rows, hasc, huniq⟩ := t
  intro r hr
  induction rows using List.reverseRecOn with
  | nil => cases hr
  | append_singleton rows last _ =>
    rw [maxId, List.getLast?_concat]
    rcases List.mem_append.1 hr with hr | hr
    · exact ((List.pairwise_append.1 hasc).2.2 r hr last (by simp)).le
    · rw [List.mem_singleton.1 hr]
      exact le_refl _

/-- The table has a row of the same IP and time. -/
def HasKey (t : IpChecks) (row : NewCheck) : Prop := ∃ r ∈ t.rows, r.ip = row.ip ∧ r.checkedAt = row.checkedAt

instance (t : IpChecks) (row : NewCheck) : Decidable (t.HasKey row) := inferInstanceAs (Decidable (∃ _ ∈ _, _))

/-- A row put after the others under the next id. -/
def append (t : IpChecks) (row : NewCheck) (h : ¬t.HasKey row) : IpChecks where
  rows := t.rows ++ [{ row with id := t.maxId + 1 }]
  ascending := by
    rw [List.pairwise_append]
    refine ⟨t.ascending, List.pairwise_singleton _ _, ?_⟩
    intro r hr last hlast
    rw [List.mem_singleton.1 hlast]
    exact Nat.lt_succ_of_le (t.le_maxId r hr)
  unique := by
    rw [List.pairwise_append]
    refine ⟨t.unique, List.pairwise_singleton _ _, ?_⟩
    intro r hr last hlast hip heq
    rw [List.mem_singleton.1 hlast] at hip heq
    exact h ⟨r, hr, hip, heq⟩

/-- `INSERT ... ON CONFLICT(ip, checked_at) DO NOTHING`: the next id is one more than the greatest one in the table. -/
def insert (t : IpChecks) (row : NewCheck) : IpChecks := if h : t.HasKey row then t else t.append row h

/-- The rows that pass a test. -/
def filter (t : IpChecks) (p : IpCheck → Bool) : IpChecks :=
  ⟨t.rows.filter p, t.ascending.sublist List.filter_sublist, t.unique.sublist List.filter_sublist⟩

/-- `ROW_NUMBER() OVER (PARTITION BY ip ORDER BY checked_at DESC, id DESC)`. -/
def rowNumber (t : IpChecks) (r : IpCheck) : Nat := (t.of r.ip).countP (·.Newer r) + 1

/-- The rows of an IP, newest first. -/
def newestFirst (t : IpChecks) (ip : String) : List IpCheck := (t.of ip).insertionSort IpCheck.Newer

end IpChecks

/-! ## The pool -/

/-- A row of `ip_pool`, under its IP. NULL is none; `last_check_ok` is 0, 1 or NULL. -/
structure PoolRow where
  isIPv6 : Bool
  scanMode : Option String
  firstSeen : Option String
  lastSeen : Option String
  lastRttMs : Option Int
  timesSeen : Nat
  lastCheckedAt : Option String
  lastCheckOk : Option Bool
  ptrCheckedAt : Option String
  revision : Nat
  historyCount : Nat
  deriving DecidableEq

/-- `failureGateSQL`: `last_check_ok != 0 OR last_checked_at < cutoff`, with NULL as not true. -/
def PoolRow.failureGate (row : PoolRow) (cutoff : String) : Bool :=
  row.lastCheckOk = some true || row.lastCheckedAt.any (fun at' => decide (at' < cutoff))

/-- A row of `ptr_cache`, under its IP. -/
structure PtrRow where
  ptrHostname : Option String
  lookupOk : Bool
  ttlSeconds : Nat
  checkedAt : String
  deriving DecidableEq

/-- The database. No row of the pool has a revision above the version of `pool_revision`, and the last reset is not after it. -/
structure Database where
  checks : IpChecks
  pool : Table String PoolRow
  ptr : Table String PtrRow
  version : Nat
  resetVersion : Nat
  stamped : ∀ ip row, pool.get? ip = some row → row.revision ≤ version
  reset_le : resetVersion ≤ version

namespace Database

/-- The database with empty tables. -/
def empty : Database where
  checks := IpChecks.empty
  pool := Table.empty
  ptr := Table.empty
  version := 0
  resetVersion := 0
  stamped := by
    intro ip row h
    rw [Table.get?_empty] at h
    cases h
  reset_le := le_refl 0

/-- `SELECT COUNT(*) FROM ip_checks WHERE ip = ?`. -/
def historyCount (db : Database) (ip : String) : Nat := (db.checks.of ip).length

/-- `historyCountIncrSQL`: the count of a pool row and the rows of its IP after its `last_checked_at`. -/
def historyCountIncr (db : Database) (ip : String) (row : PoolRow) : Nat :=
  row.historyCount + (db.checks.of ip).countP fun r => row.lastCheckedAt.any fun at' => decide (at' < r.checkedAt)

/-- An IP has a reachable check. -/
def Reachable (db : Database) (ip : String) : Prop := ∃ r ∈ db.checks.of ip, r.ok = true

instance (db : Database) (ip : String) : Decidable (db.Reachable ip) := inferInstanceAs (Decidable (∃ _ ∈ _, _))

/-- The pool row of an IP written and stamped with the version, or left alone where `f` gives none. The number
of rows written comes first. -/
def writePool (db : Database) (ip : String) (f : Option PoolRow → Option PoolRow) : Nat × Database :=
  match f (db.pool.get? ip) with
  | none => (0, db)
  | some row => (1,
    { db with
      pool := db.pool.put ip { row with revision := db.version }
      stamped := by
        intro ip' row' h
        rw [Table.get?_put] at h
        split at h
        · cases h
          exact le_refl _
        · exact db.stamped ip' row' h })

end Database

/-! ## Statements -/

/-- What a success writes to the pool: `updatePoolBatch` and `updatePoolForCheck` differ in the time of the latest check. -/
structure PoolSuccess where
  ip : String
  isIPv6 : Bool
  scanMode : Option String
  successTS : String
  rttMs : Int
  latestTS : String
  latestOk : Bool
  deriving DecidableEq

/-- The row a success makes or makes of an old one; `count` and `incr` give its `history_count`. -/
def PoolSuccess.upsert (p : PoolSuccess) (count : Nat) (incr : PoolRow → Nat) : Option PoolRow → PoolRow
  | none =>
    { isIPv6 := p.isIPv6, scanMode := p.scanMode, firstSeen := some p.successTS, lastSeen := some p.successTS,
      lastRttMs := some p.rttMs, timesSeen := 1, lastCheckedAt := some p.latestTS, lastCheckOk := some p.latestOk,
      ptrCheckedAt := none, revision := 0, historyCount := count }
  | some row =>
    { row with
      scanMode := p.scanMode, lastSeen := some p.successTS, lastRttMs := some p.rttMs, timesSeen := row.timesSeen + 1,
      lastCheckedAt := some p.latestTS, lastCheckOk := some p.latestOk, historyCount := incr row }

/-- A statement with its bound values. -/
inductive Stmt where
  /-- `bumpPoolRevision`. -/
  | bumpPoolRevision
  /-- `UPDATE pool_revision SET reset_version = version`. -/
  | markReset
  /-- `insertCheckSQL`: a failure on its own is inserted only where the pool row's failure gate is open. -/
  | insertCheck (row : NewCheck) (always : Bool) (cutoff : String)
  /-- The inserts of `saveRecheckResult`. -/
  | insertRecheck (row : NewCheck)
  /-- The upsert of `updatePoolBatch` for an IP with a success. -/
  | poolUpsert (p : PoolSuccess)
  /-- The update of `updatePoolBatch` for an IP with failures only. -/
  | poolFailure (ip latestTS cutoff : String)
  /-- The update of `updatePoolForCheck`. -/
  | poolCheck (ip ts : String) (ok : Bool) (rttMs : Int)
  /-- The insert of `updatePoolForCheck`. -/
  | poolInsert (p : PoolSuccess)
  /-- The delete of `pruneCheckHistory` on `ip_checks`. -/
  | deleteOldChecks (ips : List String) (retention : Nat)
  /-- The recount of `pruneCheckHistory`. -/
  | recount (ips : List String)
  /-- The delete of `pruneCheckHistory` on `ip_pool`. -/
  | evict (ips : List String)
  /-- The upsert of `savePTR` on `ptr_cache`. -/
  | savePTR (ip : String) (row : PtrRow)
  /-- The update of `savePTR` on `ip_pool`. -/
  | touchPTR (ip checkedAt : String)
  deriving DecidableEq

namespace Database

/-- The row of the `INSERT` that `insertCheck` and `insertRecheck` share. -/
def insertRow (db : Database) (row : NewCheck) : Nat × Database :=
  (if db.checks.HasKey row then 0 else 1, { db with checks := db.checks.insert row })

/-- A statement run: the number of rows it changed, and the database after it. -/
def exec (db : Database) : Stmt → Nat × Database
  | .bumpPoolRevision => (1,
    { db with
      version := db.version + 1
      stamped := fun ip row h => (db.stamped ip row h).trans (Nat.le_succ _)
      reset_le := db.reset_le.trans (Nat.le_succ _) })
  | .markReset => (1, { db with resetVersion := db.version, reset_le := le_refl _ })
  | .insertCheck row always cutoff =>
    if always || (db.pool.get? row.ip).any (·.failureGate cutoff) then db.insertRow row else (0, db)
  | .insertRecheck row => db.insertRow row
  | .poolUpsert p => db.writePool p.ip fun old => some (p.upsert (db.historyCount p.ip) (db.historyCountIncr p.ip) old)
  | .poolFailure ip latestTS cutoff => db.writePool ip fun old =>
    (old.filter (·.failureGate cutoff)).map fun row =>
      { row with lastCheckedAt := some latestTS, lastCheckOk := some false, historyCount := db.historyCountIncr ip row }
  | .poolCheck ip ts ok rttMs => db.writePool ip fun old => old.map fun row =>
    { row with
      lastCheckedAt := some ts, lastCheckOk := some ok
      lastRttMs := if ok then some rttMs else row.lastRttMs
      lastSeen := if ok then some ts else row.lastSeen
      timesSeen := if ok then row.timesSeen + 1 else row.timesSeen
      historyCount := db.historyCountIncr ip row }
  | .poolInsert p => db.writePool p.ip fun old =>
    some (p.upsert (db.historyCount p.ip) (fun _ => db.historyCount p.ip) old)
  | .deleteOldChecks ips retention =>
    let kept := db.checks.filter fun r => decide (r.ip ∈ ips → db.checks.rowNumber r ≤ retention)
    (db.checks.rows.length - kept.rows.length, { db with checks := kept })
  | .recount ips => (db.pool.keys.countP (· ∈ ips),
    { db with
      pool := db.pool.mapRows fun ip row => if ip ∈ ips then { row with historyCount := db.historyCount ip } else row
      stamped := by
        intro ip row h
        rw [Table.get?_mapRows] at h
        obtain ⟨old, hold, rfl⟩ := Option.map_eq_some_iff.1 h
        split <;> exact db.stamped ip old hold })
  | .evict ips =>
    let kept := db.pool.filter fun ip _ => !decide (ip ∈ ips ∧ ¬db.Reachable ip)
    (db.pool.keys.length - kept.keys.length,
    { db with
      pool := kept
      stamped := by
        intro ip row h
        rw [Table.get?_filter] at h
        exact db.stamped ip row (Option.filter_eq_some_iff.1 h).1 })
  | .savePTR ip row => (1, { db with ptr := db.ptr.put ip row })
  | .touchPTR ip checkedAt => db.writePool ip fun old => old.map fun row => { row with ptrCheckedAt := some checkedAt }

/-- `db.batch`: the statements in order, as one atomic step; the numbers of rows they changed, and the database after them. -/
def batch (db : Database) : List Stmt → List Nat × Database
  | [] => ([], db)
  | stmt :: stmts => ((db.exec stmt).1 :: ((db.exec stmt).2.batch stmts).1, ((db.exec stmt).2.batch stmts).2)

end Database

end Gwsdb.Store
