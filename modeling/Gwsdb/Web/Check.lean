import Gwsdb.Lib.CallRules
import Gwsdb.Recheck.ProbeServer
import Gwsdb.Store.RateLimit
import Gwsdb.Web.AsnCache
import Gwsdb.Web.Geo
import Gwsdb.Web.Requests

/-!
# The gates

`functions/check.ts` from its first line on, and the gates of `functions/query.ts`: both ask the rate limiter and look up the AS
of the address through `asn_cache`; `/check` then has the address probed and stores the verdict. Each statement on a table and
each request to another service is a call; the other tasks of the site go on beside them.
-/

namespace Gwsdb.Gate

open Gwsdb.Net (isIPAddress)
open Gwsdb.Recheck (Journey ProbeReply ProbeTokens Prober probeProxy)
open Gwsdb.Store (Program RateLimitCall RateLimitTable Reply rateLimits rateWindow)
open Gwsdb.Web (ASNCacheEntry ASNCacheRow ASNInfo ProbeResponse clampTTL getASN handleCheck isGoogleASN normalize passes saveASN)
open Interleave (Prog Service)
open JsCase (CaseData)
open Keyed (Table)

/-! ## Calls -/

/-- What a live lookup gives or throws: the AS, the TTL, and whether it found one. -/
abbrev LiveAnswer := Except String (ASNInfo × Nat × Bool)

/-- A call of a handler: a statement of the store, the `DELETE`, the `SELECT` and the `INSERT` of the limiter, and those of the AS
gate and of the probe. `lookupASN` and `probe` carry what they meet outside, `saveASN` whether the table takes the row. -/
inductive GateCall where
  | store (e : Store.Call)
  | pruneWindows (call : RateLimitCall)
  | windowCount (call : RateLimitCall)
  | countCall (call : RateLimitCall)
  | getASN (ip : String) (now : Int)
  | lookupASN (ip : String) (live : LiveAnswer)
  | saveASN (e : ASNCacheEntry) (stored : Bool)
  | probe (ip : String) (j : Journey)

/-- What a call replies. -/
abbrev GateReply : GateCall → Type
  | .store e => Reply e
  | .pruneWindows _ => Unit
  | .windowCount _ => Option Nat
  | .countCall _ => Unit
  | .getASN _ _ => Option ASNCacheEntry
  | .lookupASN _ _ => LiveAnswer
  | .saveASN _ _ => Unit
  | .probe _ _ => Option ProbeReply

/-- The tables: the site's, those of the limiter, and `asn_cache`. -/
structure Backend where
  site : Store.Site
  limits : RateLimitTable
  asn : Table String ASNCacheRow

/-- What the handlers run with: the prober of the probe server, the tokens of the hops to it, and the data of `toLowerCase`. -/
structure Deployment where
  prober : Prober
  tokens : ProbeTokens
  caseData : CaseData

/-- The window of a call of the limiter. -/
def window (call : RateLimitCall) : String := rateWindow call.now (rateLimits call.kind).windowMs

/-- The `DELETE` of the limiter. -/
def pruneWindows (table : RateLimitTable) (call : RateLimitCall) : RateLimitTable :=
    table.prune call.kind call.clientIP (window call)

/-- Its `SELECT`. -/
def windowCount (table : RateLimitTable) (call : RateLimitCall) : Option Nat := table.get? (call.kind, call.clientIP, window call)

/-- Its `INSERT`. -/
def countCall (table : RateLimitTable) (call : RateLimitCall) : RateLimitTable :=
  table.alter (call.kind, call.clientIP, window call) fun row => some (row.elim 1 (· + 1))

/-- The reply of a call, and the tables after it. -/
def answerGate (d : Deployment) : Service GateCall GateReply Backend
  | .store e, b => ((Store.serve e b.site).1, { b with site := (Store.serve e b.site).2 })
  | .pruneWindows call, b => ((), { b with limits := pruneWindows b.limits call })
  | .windowCount call, b => (windowCount b.limits call, b)
  | .countCall call, b => ((), { b with limits := countCall b.limits call })
  | .getASN ip now, b => (getASN b.asn ip now, b)
  | .lookupASN _ live, b => (live, b)
  | .saveASN e stored, b => ((), { b with asn := if stored then saveASN b.asn e else b.asn })
  | .probe ip j, b => (probeProxy d.prober d.tokens ip j, b)

/-- A program of calls. -/
abbrev GateProgram (α : Type) := Prog GateCall GateReply String α

/-- One call. -/
abbrev askGate (e : GateCall) : GateProgram (GateReply e) := Prog.perform e

/-- A program of the store as one of these calls. -/
abbrev onStore {α : Type} (p : Program α) : GateProgram α := p.hoist GateCall.store fun _ r => r

/-- What a handler answers. -/
inductive GateResponse where
  /-- A JSON body with `error`. -/
  | error (status : Nat) (message : String)
  /-- The JSON body of a probe's result. -/
  | probed (result : ProbeResponse)
  /-- The query page sends the browser to the address in its canonical form. -/
  | redirect (ip : String)
  /-- The query page with an error. -/
  | refused (message : String)
  /-- The query page whose gates passed. -/
  | passed
  | other (r : Web.Response)

/-! ## The limiter -/

/-- What `checkRateLimit` does with the count it read. -/
def countIfRoom (answered : Nat) (call : RateLimitCall) (count : Option Nat) : GateProgram (Except String Bool) :=
  if (rateLimits call.kind).limit ≤ count.getD 0 then return .ok false
  else if answered = 2 then return .error "D1_ERROR"
  else do
    let _ ← askGate (.countCall call)
    return .ok true

/-- `checkRateLimit`, statement by statement. D1 carries out `answered` statements and fails after them;
the error is the one thrown. -/
def tryRateLimit (answered : Nat) (call : RateLimitCall) : GateProgram (Except String Bool) :=
  if answered = 0 then return .error "D1_ERROR"
  else do
    let _ ← askGate (.pruneWindows call)
    if answered = 1 then return .error "D1_ERROR"
    let count ← askGate (.windowCount call)
    countIfRoom answered call count

/-! ## The AS of an address -/

/-- What `lookupGoogleASN` meets: the clock when it reads and when it saves, the live lookup, and whether the row is taken. -/
structure Lookup where
  readAt : Int
  live : LiveAnswer
  savedAt : Int
  stored : Bool

/-- What a live lookup found is saved, if it is Google's. -/
def keepASN (ip : String) (l : Lookup) (info : ASNInfo) (ttlSeconds : Nat) (ok : Bool) : GateProgram (ASNInfo × Bool) := do
  if !ok || !isGoogleASN info then return (info, ok)
  let _ ← askGate (.saveASN { info with ip, lookupOk := ok, ttlSeconds := clampTTL ttlSeconds, checkedAt := l.savedAt } l.stored)
  return (info, ok)

/-- `lookupGoogleASN`, call by call; an error is the one it throws, which both handlers catch. -/
def tryGoogleASN (ip : String) (l : Lookup) : GateProgram (Except String (ASNInfo × Bool)) := do
  let cached ← askGate (.getASN ip l.readAt)
  match cached with
  | some cached => return .ok (cached.toASNInfo, cached.lookupOk)
  | none =>
    let live ← askGate (.lookupASN ip l.live)
    match live with
    | .error err => return .error err
    | .ok (info, ttlSeconds, ok) =>
      let result ← keepASN ip l info ttlSeconds ok
      return .ok result

/-! ## `/check` -/

/-- A request to `/check`: the headers `CF-IPCountry` and `CF-Connecting-IP` and the parameter `ip`, empty where missing; the
clock when the limiter is asked and when the verdict is stored; how many statements of the limiter D1 carries out; and what
the lookup and the probe meet. -/
structure CheckRequest where
  country : String
  ip : String
  clientIP : String
  limitedAt : Int
  limiterAnswers : Nat
  lookup : Lookup
  journey : Journey
  checkedAt : Int

/-- The call of the limiter. -/
def CheckRequest.limit (q : CheckRequest) : RateLimitCall := ⟨.probe, q.clientIP, q.limitedAt⟩

/-- The JSON of a probe's result. -/
def relayed (r : Scan.Result) : ProbeResponse := ⟨r.ok, some r.rttMs, some r.reason, some r.detail, r.mixed⟩

/-- The probe, and its verdict stored. -/
def probeAndStore (q : CheckRequest) (ip : String) : GateProgram GateResponse := do
  let reply ← askGate (.probe ip q.journey)
  match reply with
  | none => return .error 504 "could not reach the probe server"
  | some (.text _ _) => return .error 502 "probe server error"
  | some (.result r) =>
    let _ ← onStore (handleCheck q.checkedAt q.ip (relayed r))
    return .probed (relayed r)

/-- The gate of the AS. -/
def checkASN (q : CheckRequest) (ip : String) : GateProgram GateResponse := do
  let asn ← tryGoogleASN ip q.lookup
  match asn with
  | .error _ => return .error 503 "could not verify this IP's ASN right now"
  | .ok asn => if passes asn then probeAndStore q ip else return .error 400 "this IP does not belong to a Google ASN"

/-- The gate of the limiter. An error of D1 is not caught. -/
def checkLimit (q : CheckRequest) (ip : String) : GateProgram GateResponse := do
  let allowed ← tryRateLimit q.limiterAnswers q.limit
  match allowed with
  | .error err => .fail err
  | .ok true => checkASN q ip
  | .ok false => return .error 429 "rate limit exceeded, try again later"

/-- `onRequestPost` of `/check`. -/
def checkIP (q : CheckRequest) : GateProgram GateResponse :=
  if q.country ≠ "CN" then return .error 403 "forbidden"
  else
    match normalize q.ip with
    | none => return .error 400 "invalid ip"
    | some ip => if q.clientIP = "" then return .error 400 "could not determine client ip" else checkLimit q ip

/-! ## `/query` -/

/-- A request to `/query`: the parameter `ip` without spaces around it, the header `CF-Connecting-IP`, empty where missing, the
clock when the limiter is asked and how many of its statements D1 carries out, and what the lookup meets. -/
structure QueryRequest where
  ip : String
  clientIP : String
  limitedAt : Int
  limiterAnswers : Nat
  lookup : Lookup

/-- The call of the limiter. -/
def QueryRequest.limit (q : QueryRequest) : RateLimitCall := ⟨.query, q.clientIP, q.limitedAt⟩

/-- `underQueryRateLimit`: open where the client is not known, and where the limiter fails. -/
def underQueryRateLimit (q : QueryRequest) : GateProgram Bool := do
  if q.clientIP = "" then return true
  let allowed ← tryRateLimit q.limiterAnswers q.limit
  match allowed with
  | .error _ => return true
  | .ok allowed => return allowed

/-- `QUERY_RATE_LIMIT_MESSAGE`. -/
def QUERY_RATE_LIMIT_MESSAGE : String := "Too many queries from your network; please try again later"

/-- The gate of the AS. -/
def queryASN (q : QueryRequest) : GateProgram GateResponse := do
  let asn ← tryGoogleASN q.ip q.lookup
  match asn with
  | .error _ => return .refused "Could not verify this IP's ASN right now (the lookup failed); please try again"
  | .ok asn => if passes asn then return .passed else return .refused "This IP does not belong to a Google ASN"

/-- `onRequestGet` of `/query` up to its lookups of names and of the pool. -/
def queryGates (u : CaseData) (q : QueryRequest) : GateProgram GateResponse :=
  if isIPAddress q.ip.toList then
    match normalize q.ip with
    | none => return .refused "Not a valid IP address or 1e100.net hostname"
    | some ip =>
      if ip ≠ q.ip then return .redirect ip
      else do
        let allowed ← underQueryRateLimit q
        if allowed then queryASN q else return .refused QUERY_RATE_LIMIT_MESSAGE
  else if q.ip = "" then return .passed
  else if Web.Geo.isHostname u q.ip.toList then do
    let allowed ← underQueryRateLimit q
    if allowed then return .passed else return .refused QUERY_RATE_LIMIT_MESSAGE
  else return .refused "Not a valid IP address or 1e100.net hostname"

/-! ## Visits -/

/-- Whether a task is one of `/check`. -/
def isCheck : Web.Task → Bool
  | .check _ _ _ => true
  | _ => false

/-- What the site is asked to do. -/
inductive Visit where
  | check (q : CheckRequest)
  | query (q : QueryRequest)
  | other (t : Web.Task) (h : isCheck t = false)

/-- The program of a visit. -/
def visit (u : CaseData) : Visit → GateProgram GateResponse
  | .check q => checkIP q
  | .query q => queryGates u q
  | .other t _ => do
    let r ← onStore (Web.start t)
    return .other r

end Gwsdb.Gate
