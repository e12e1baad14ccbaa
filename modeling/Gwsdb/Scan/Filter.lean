import Mathlib.Data.List.Basic
import Mathlib.Logic.Function.Basic

/-!
# The rows a flush submits

`internal/store/models.go` and `internal/ingest/filter.go`: the scanner's check rows, and `filterChecks`, which turns the checks
of one flush into the rows submitted to the server. A time is the number of nanoseconds since Go's zero time, so `0` is the zero
time. A Go map is a function to an optional value; a set of strings is a list read by membership.
-/

namespace Gwsdb.Scan

/-- A `time.Time` in UTC. -/
abbrev Time := Nat

/-- A `time.Duration` that is not negative. -/
abbrev Duration := Nat

/-- `store.ScanResult`. -/
structure ScanResult where
  ip : String
  rttMs : Int
  deriving DecidableEq, Repr

/-- `store.IPCheck`: one observation of one IP. -/
structure IPCheck where
  ip : String
  ok : Bool
  rttMs : Int
  reason : String
  detail : String
  checkedAt : Time
  scanMode : String
  deriving DecidableEq, Repr

/-- The maps that `FilterChecks` fills from the dated successes. -/
structure Seen where
  seenAt : String → Option Time
  detailByIP : String → Option String
  reasonByIP : String → Option String

/-- The maps before the first check. -/
def Seen.none : Seen := ⟨fun _ => .none, fun _ => .none, fun _ => .none⟩

/-- One check entered in the maps. -/
def Seen.add (m : Seen) (c : IPCheck) : Seen :=
  if c.ok ∧ c.checkedAt ≠ 0 then
    { seenAt := Function.update m.seenAt c.ip (some c.checkedAt)
      detailByIP := if c.detail ≠ "" then Function.update m.detailByIP c.ip (some c.detail) else m.detailByIP
      reasonByIP := if c.reason ≠ "" then Function.update m.reasonByIP c.ip (some c.reason) else m.reasonByIP }
  else m

/-- The maps after all checks. -/
def seenOf (checks : List IPCheck) : Seen := checks.foldl Seen.add Seen.none

/-- The row of a result: the time of the IP's last dated success in the checks, or `now`. -/
def resultRow (m : Seen) (now : Time) (r : ScanResult) : IPCheck where
  ip := r.ip
  ok := true
  rttMs := r.rttMs
  reason := (m.reasonByIP r.ip).getD ""
  detail := (m.detailByIP r.ip).getD ""
  checkedAt := (m.seenAt r.ip).getD now
  scanMode := ""

/-- The loop over the results: one row for each IP not recorded yet. State: the IPs recorded and the rows so far. -/
def addResult (m : Seen) (now : Time) (st : List String × List IPCheck) (r : ScanResult) : List String × List IPCheck :=
  if r.ip ∈ st.1 then st else (r.ip :: st.1, st.2 ++ [resultRow m now r])

/-- The row of a check that is kept: its own time, or `now` when it has none. -/
def checkRow (now : Time) (c : IPCheck) : IPCheck where
  ip := c.ip
  ok := c.ok
  rttMs := if c.ok then c.rttMs else 0
  reason := c.reason
  detail := c.detail
  checkedAt := if c.checkedAt = 0 then now else c.checkedAt
  scanMode := ""

/-- The loop over the checks: a success of an IP not recorded yet, and a failure of an IP recorded or known good. -/
def addCheck (knownGood : List String) (now : Time) (st : List String × List IPCheck) (c : IPCheck) :
    List String × List IPCheck :=
  if c.ok then
    if c.ip ∈ st.1 then st else (c.ip :: st.1, st.2 ++ [checkRow now c])
  else
    if c.ip ∉ st.1 ∧ c.ip ∉ knownGood then st else (st.1, st.2 ++ [checkRow now c])

/-- `FilterChecks`: the results, then the successes no result covers, and the failures of known IPs. -/
def filterChecks (results : List ScanResult) (checks : List IPCheck) (knownGood : List String) (now : Time) : List IPCheck :=
  (checks.foldl (addCheck knownGood now) (results.foldl (addResult (seenOf checks) now) ([], []))).2

end Gwsdb.Scan
