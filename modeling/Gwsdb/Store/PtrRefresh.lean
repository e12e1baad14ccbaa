import Gwsdb.Lib.Transition
import Gwsdb.Store.Programs

/-!
# The PTR refresh

`pendingIPsForPTRRefresh` of `src/store.ts` and `runPTRRefresh` of `src/ptrRefresh.ts`. What the resolver answered is an argument:
a table of some IPs. Several passes on a pool that nobody else writes are a run of `nextPass`.
-/

namespace Gwsdb.Store

open Keyed (Table)

/-! ## Which IPs are due -/

/-- SQLite's text of an instant: date and time to the second; NULL outside the years 0 to 9999. -/
def datetime (t : Int) : Option String :=
  if IsoTime.FourDigitYear t then some (String.ofList (IsoTime.dateChars t ++ ' ' :: IsoTime.timeChars t)) else none

/-- `datetime('now', '-30 days')`. -/
def ptrCutoff (now : Int) : Option String := datetime (now - 30 * 86400000)

/-- `ptr_checked_at < cutoff`, with NULL as not true. -/
def PoolRow.stale (row : PoolRow) (cutoff : Option String) : Bool :=
  row.ptrCheckedAt.any fun at' => cutoff.any fun k => decide (at' < k)

namespace Database

/-- The IPs never checked. -/
def uncheckedIPs (db : Database) : List String := (db.pool.entries.filter fun e => e.2.ptrCheckedAt.isNone).map Prod.fst

/-- The IPs checked before the cutoff, oldest first. -/
def staleIPs (db : Database) (cutoff : Option String) : List String :=
  ((db.pool.entries.filter fun e => e.2.stale cutoff).insertionSort fun a b =>
    a.2.ptrCheckedAt.getD "" ≤ b.2.ptrCheckedAt.getD "").map Prod.fst

/-- `pendingIPsForPTRRefresh`: the IPs never checked, and after them the stale ones, as many as fit. -/
def pendingIPsForPTRRefresh (db : Database) (now : Int) (limit : Nat) : List String :=
  let unchecked := db.uncheckedIPs.take limit
  if limit ≤ unchecked.length then unchecked
  else unchecked ++ (db.staleIPs (ptrCutoff now)).take (limit - unchecked.length)

/-- All the IPs that are due. -/
def dueIPs (db : Database) (now : Int) : List String := db.uncheckedIPs ++ db.staleIPs (ptrCutoff now)

end Database

/-! ## One pass -/

/-- `BATCH_LIMIT`. -/
def BATCH_LIMIT : Nat := 500

/-- `MIN_CACHE_TTL_SECONDS`. -/
def MIN_CACHE_TTL_SECONDS : Nat := 60 * 60

/-- What the resolver answered for an IP. -/
structure Lookup where
  rcode : Nat
  hostnames : List String
  ttlSeconds : Nat
  deriving DecidableEq

/-- NOERROR and NXDOMAIN are definitive answers. -/
def Lookup.definitive (r : Lookup) : Bool := r.rcode = 0 || r.rcode = 3

/-- What a pass meets: the clock of the database when it selects, the answers, and its own clock when it has them. The years are
those SQLite has dates for. -/
structure Pass where
  now : Int
  answers : Table String Lookup
  checkedAt : Int
  ordered : now ≤ checkedAt
  year : IsoTime.FourDigitYear checkedAt

/-- The entries a pass saves: the definitive answers to what it queried. -/
def Pass.saved (p : Pass) (ips : List String) : List PTRCacheEntry :=
  (p.answers.entries.filter fun e => decide (e.1 ∈ ips) && e.2.definitive).map fun e =>
    { ip := e.1, ptrHostnames := e.2.hostnames, lookupOk := decide (0 < e.2.hostnames.length),
      ttlSeconds := max e.2.ttlSeconds MIN_CACHE_TTL_SECONDS, checkedAt := some p.checkedAt }

/-- `runPTRRefresh`: the IPs it queries, and what it leaves. -/
def runPTRRefresh (p : Pass) (s : Site) : List String × Site :=
  let ips := s.db.pendingIPsForPTRRefresh p.now BATCH_LIMIT
  if ips.length = 0 then ([], s) else (ips, ((savePTRBatch (p.saved ips)).run serve s).2)

/-! ## Passes -/

/-- What a pass did: when it selected, the IPs that were due, those it queried, and those it got a definitive answer for. -/
structure PassLog where
  now : Int
  due : List String
  queried : List String
  answered : List String

/-- The site, the last reading of the clock, and the passes so far. -/
structure Refresh where
  site : Site
  clock : Int
  log : List PassLog

/-- One pass after the others. -/
def nextPass (s : Refresh) (p : Pass) : Option Refresh :=
  let queried := (runPTRRefresh p s.site).1
  if s.clock ≤ p.now then
    some
      { site := (runPTRRefresh p s.site).2
        clock := p.checkedAt
        log := s.log ++ [⟨p.now, s.site.db.dueIPs p.now, queried, (p.saved queried).map (·.ip)⟩] }
  else none

end Gwsdb.Store
