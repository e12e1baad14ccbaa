import Gwsdb.Store.Programs

/-!
# The standing of an IP

What the tables are for, seen from one IP: its checks, newest first, and a summary of them in its pool row. A check comes in
unless one of its time is there, a report of a request moves the summary on, and a prune cuts the checks down and buries an IP
that none of them reached. The writers do this to each IP by itself (`Gwsdb.Lemmas.Standing`).
-/

namespace Gwsdb.Store

/-- What a pool row says of the history of its IP. -/
structure PoolSummary where
  lastSeen : Option String
  lastCheckedAt : Option String
  lastCheckOk : Option Bool
  historyCount : Nat
  deriving DecidableEq

/-- The summary in a pool row. -/
def PoolRow.summary (row : PoolRow) : PoolSummary := ⟨row.lastSeen, row.lastCheckedAt, row.lastCheckOk, row.historyCount⟩

/-- What a request reports of an IP: its latest check, and the time of its success if it has one. -/
structure Report where
  success : Option String
  latestAt : String
  latestOk : Bool
  deriving DecidableEq

/-- The checks of an IP, newest first, and what its pool row says of them. -/
structure Standing where
  checks : List IpCheck
  row : Option PoolSummary
  deriving DecidableEq

namespace Standing

/-- A check of a time is there. -/
def HasTime (st : Standing) (checkedAt : String) : Prop := ∃ r ∈ st.checks, r.checkedAt = checkedAt

instance (st : Standing) (checkedAt : String) : Decidable (st.HasTime checkedAt) := inferInstanceAs (Decidable (∃ _ ∈ _, _))

/-- A check comes in. -/
def insert (st : Standing) (r : IpCheck) : Standing :=
  if st.HasTime r.checkedAt then st else { st with checks := st.checks.orderedInsert IpCheck.Newer r }

/-- The number of checks after a time, none for the time of no check. -/
def countAfter (st : Standing) (at' : Option String) : Nat := st.checks.countP fun r => at'.any fun t => decide (t < r.checkedAt)

/-- The pool row takes a report; a report without a success makes no row. -/
def report (st : Standing) (rep : Report) : Standing :=
  { st with
    row := match st.row with
      | none => rep.success.map fun at' => ⟨some at', some rep.latestAt, some rep.latestOk, st.checks.length⟩
      | some row => some
        ⟨rep.success.or row.lastSeen, some rep.latestAt, some rep.latestOk, row.historyCount + st.countAfter row.lastCheckedAt⟩ }

/-- Where the count of the pool row exceeds the retention, the checks beyond it go and the count is set. -/
def cut (st : Standing) : Standing :=
  match st.row with
  | none => st
  | some row =>
    if CHECK_HISTORY_RETENTION < row.historyCount then
      ⟨st.checks.take CHECK_HISTORY_RETENTION, some { row with historyCount := (st.checks.take CHECK_HISTORY_RETENTION).length }⟩
    else st

/-- A pool row with a full history and no reachable check in it goes. -/
def bury (st : Standing) : Standing :=
  match st.row with
  | none => st
  | some row =>
    if CHECK_HISTORY_RETENTION ≤ row.historyCount ∧ ¬∃ r ∈ st.checks, r.ok = true then ⟨st.checks, none⟩ else st

/-- A prune. -/
def prune (st : Standing) : Standing := st.cut.bury

end Standing

/-- The standing of an IP in the database. -/
def Database.standing (db : Database) (ip : String) : Standing :=
    ⟨db.checks.newestFirst ip, (db.pool.get? ip).map PoolRow.summary⟩

end Gwsdb.Store
