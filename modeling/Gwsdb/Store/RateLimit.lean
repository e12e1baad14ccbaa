import Gwsdb.Lib.Table
import Gwsdb.Store.Date

/-!
# The rate limiter

`checkRateLimit` of `src/store.ts` on the table `check_rate_limit`, and the limits of `functions/check.ts` and
`functions/query.ts`. The three statements of one call run with no other call in between. Clock readings are arguments.
-/

namespace Gwsdb.Store

open IsoTime (isoText)
open Keyed (Table)

/-- `RateLimitKind`. -/
inductive RateLimitKind where
  | probe
  | query
  deriving DecidableEq

/-- `check_rate_limit`: the counts under kind, client and window. -/
abbrev RateLimitTable := Table (RateLimitKind × String × String) Nat

/-- The window of a clock reading: the start of its bucket, to the minute. -/
def rateWindow (now windowMs : Int) : String := String.ofList ((isoText (now / windowMs * windowMs)).toList.take 16)

/-- `DELETE FROM check_rate_limit WHERE kind = ? AND client_ip = ? AND window < ?`. -/
def RateLimitTable.prune (table : RateLimitTable) (kind : RateLimitKind) (clientIP window : String) : RateLimitTable :=
  table.filter fun key _ => !decide (key.1 = kind ∧ key.2.1 = clientIP ∧ key.2.2 < window)

/-- `checkRateLimit`: the answer, and the table after it. -/
def checkRateLimit (table : RateLimitTable) (now : Int) (kind : RateLimitKind) (clientIP : String) (limit windowMs : Int) :
    Bool × RateLimitTable :=
  let window := rateWindow now windowMs
  let pruned := table.prune kind clientIP window
  let count := (pruned.get? (kind, clientIP, window)).getD 0
  if limit ≤ count then (false, pruned)
  else (true, pruned.alter (kind, clientIP, window) fun row => some (row.elim 1 (· + 1)))

/-- The limit and the window that a kind is used with: a minute or an hour. -/
structure RateLimit where
  limit : Int
  windowMs : Int
  minute_or_hour : windowMs = 60000 ∨ windowMs = 3600000

/-- `RATE_LIMIT_PER_MINUTE` probes and `QUERY_RATE_LIMIT_PER_HOUR` queries. -/
def rateLimits : RateLimitKind → RateLimit
  | .probe => ⟨10, 60000, Or.inl rfl⟩
  | .query => ⟨100, 3600000, Or.inr rfl⟩

/-- A call of `checkRateLimit`. -/
structure RateLimitCall where
  kind : RateLimitKind
  clientIP : String
  now : Int
  deriving DecidableEq

section
variable (limits : RateLimitKind → RateLimit)

/-- A call with the limit and the window of its kind. -/
def answerCall (table : RateLimitTable) (call : RateLimitCall) : Bool × RateLimitTable :=
  checkRateLimit table call.now call.kind call.clientIP (limits call.kind).limit (limits call.kind).windowMs

/-- The table after calls. -/
def tableAfter (table : RateLimitTable) (calls : List RateLimitCall) : RateLimitTable :=
  calls.foldl (fun table call => (answerCall limits table call).2) table

/-- The answers to calls. -/
def answersTo : RateLimitTable → List RateLimitCall → List Bool
  | _, [] => []
  | table, call :: calls => (answerCall limits table call).1 :: answersTo (answerCall limits table call).2 calls

end

end Gwsdb.Store
