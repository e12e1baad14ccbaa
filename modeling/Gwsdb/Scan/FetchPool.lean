import Gwsdb.Scan.Scanner
import Gwsdb.Store.Date
import Gwsdb.Web.Row

/-!
# The pool as the scanner fetches it

`FetchPool` of `internal/ingest/client.go` and `splitPoolByFamily` of `internal/scan/recheck_worker.go`. The layout `2006-01-02
15:04:05` is read as `time.ParseInLocation` reads it: the hour may have one digit, the seconds a fraction, and blanks may come in
numbers. What `netip.ParseAddr` makes of a text is an argument.
-/

namespace Gwsdb.Scan

open Digits (value)
open Gwsdb.Store (field sep instant)
open IsoTime (leap monthLengths)
open JsNumber (isDigit)

/-! ## `time.ParseInLocation` -/

/-- `getnum`: two digits, or one where two are not asked for. -/
def getnum (fixed : Bool) : List Char → Option (Nat × List Char)
  | c :: d :: s =>
    if isDigit 10 c then
      if isDigit 10 d then some (value 10 [c, d], s) else if fixed then none else some (value 10 [c], d :: s)
    else none
  | [c] => if isDigit 10 c && !fixed then some (value 10 [c], []) else none
  | [] => none

/-- `getnum` for a field with a bound. -/
def getField (fixed : Bool) (bound : Nat) (s : List Char) : Option (Nat × List Char) :=
  (getnum fixed s).bind fun (n, s) => if n < bound then some (n, s) else none

/-- `skip` of a blank. -/
def skipBlank (s : List Char) : Option (List Char) :=
  if s.head?.any (· ≠ ' ') then none else some (s.dropWhile (· = ' '))

/-- The fraction that may follow the seconds, in nanoseconds. -/
def fraction : List Char → Nat × List Char
  | c :: s =>
    if (c = '.' ∨ c = ',') ∧ s.head?.any (isDigit 10) then
      (value 10 (((s.takeWhile (isDigit 10)).take 9).rightpad 9 '0'), s.dropWhile (isDigit 10))
    else (0, c :: s)
  | [] => (0, [])

/-- The nanoseconds since 1970 of a text in `poolTimeLayout`. -/
def parsePoolTime (s : List Char) : Option Int := do
  let (y, s) ← field 4 s
  let (month, s) ← getField true 13 (← sep '-' s)
  let (day, s) ← getnum true (← sep '-' s)
  let (hour, s) ← getField false 24 (← skipBlank s)
  let (minute, s) ← getField true 60 (← sep ':' s)
  let (second, s) ← getField true 60 (← sep ':' s)
  let (nanosecond, s) := fraction s
  if s ≠ [] ∨ month = 0 ∨ day = 0 ∨ (monthLengths (leap y)).getD (month - 1) 0 < day then none
  else some (instant y month day hour minute second 0 * 1000000 + nanosecond)

/-- The nanoseconds from Go's zero time to 1970. -/
def unixEpoch : Int := 62135596800 * 1000000000

/-- A time since 1970 as a `time.Time`; years before 1 are not modelled. -/
def unix (nanoseconds : Int) : Time := (nanoseconds + unixEpoch).toNat

/-! ## `FetchPool` -/

/-- A reachable row as a target. -/
def poolTarget (r : IPRow) : Except String PoolTarget :=
  if r.lastSeen = "-" then .ok ⟨r.ip, 0⟩
  else match parsePoolTime r.lastSeen.toList with
    | some t => .ok ⟨r.ip, unix t⟩
    | none => .error ("parse lastSeen for " ++ r.ip)

/-- `FetchPool`; `out` is the body of a 200, or the error of the request, of its status or of decoding. -/
def FetchPool (out : Except String (List IPRow)) : Except String (List PoolTarget) := do
  let rows ← out
  let reachable ← (rows.filter (·.status = "Reachable")).mapM poolTarget
  return reachable.insertionSort fun a b => a.lastSeen ≤ b.lastSeen

/-- `splitPoolByFamily`; `parseAddr` says whether a text is an IPv4 address, if it is an address. -/
def splitPoolByFamily (parseAddr : String → Option Bool) (pool : List PoolTarget) : List PoolTarget × List PoolTarget :=
  (pool.filter fun target => parseAddr target.ip = some true, pool.filter fun target => parseAddr target.ip = some false)

end Gwsdb.Scan
