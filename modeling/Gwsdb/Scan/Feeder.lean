import Gwsdb.Scan.FetchPool
import Gwsdb.Web.PoolEndpoint

/-!
# The recheck feeders

`runRecheckFeeder` and `feedRecheckJobs` of `internal/scan/recheck_worker.go`, one feeder for each family. A feeder fetches the
pool of its family from `/api/pool`, hands its targets out one by one, and waits. The channel of jobs has no buffer, so a target
is handed out in the step in which a worker takes it. Moments are those of the site, times those of the scanner's clock.
-/

namespace Gwsdb.Scan

open Gwsdb.Store
open Gwsdb.Web (PoolWorld PoolAct nextPool SearchParams)

/-! ## One feeder -/

/-- The targets of one fetch that are handed out, and the moment its request began. -/
structure Cycle where
  began : Nat
  targets : List PoolTarget

/-- Where a feeder stands: it fetches, by a request once that has begun; it has targets left to hand out; it waits until
a time; its context is done. -/
inductive FeederStage where
  | fetching (request : Option Nat)
  | feeding (left : List PoolTarget)
  | waiting (deadline : Time)
  | stopped

/-- A feeder, and what it has done: the targets it seeded, its cycles, the targets that workers took and the times of its fetches,
newest first. No step reads what it has done. -/
structure Feeder where
  stage : FeederStage
  seeded : List PoolTarget
  cycles : List Cycle
  taken : List PoolTarget
  fetches : List Time

/-- A feeder that begins. -/
def Feeder.new : Feeder := ⟨.fetching none, [], [], [], []⟩

/-- The parameters of the request of `FetchPool`. -/
def familyParams (ipv6Only : Bool) : SearchParams := [("family", if ipv6Only then "6" else "4")]

/-- What a feeder depends on: `RecheckInterval`, and what `netip.ParseAddr` makes of a text (whether it is an IPv4 address). -/
structure FeederConfig where
  recheckInterval : Duration
  parseAddr : String → Option Bool

namespace Feeder

/-- The targets of the feeder's family. -/
def matching (cfg : FeederConfig) (ipv6Only : Bool) (pool : List PoolTarget) : List PoolTarget :=
  if ipv6Only then (splitPoolByFamily cfg.parseAddr pool).2 else (splitPoolByFamily cfg.parseAddr pool).1

/-- What is done with the outcome of a fetch. -/
def fetched (cfg : FeederConfig) (ipv6Only : Bool) (f : Feeder) (began : Nat) (now : Time)
    (out : Except String (List IPRow)) : Feeder :=
  match FetchPool out with
  | .error _ => { f with stage := .waiting (now + 30 * second) }
  | .ok pool =>
    if matching cfg ipv6Only pool = [] then { f with seeded := f.seeded ++ pool, stage := .waiting (now + 60 * second) }
    else
      { f with
        seeded := f.seeded ++ pool
        cycles := f.cycles ++ [⟨began, matching cfg ipv6Only pool⟩]
        stage := .feeding (matching cfg ipv6Only pool) }

/-- A worker takes the next target; after the last one the feeder waits. -/
def take (cfg : FeederConfig) (f : Feeder) (now : Time) : Option Feeder :=
  match f.stage with
  | .feeding (target :: left) => some
    { f with
      taken := f.taken ++ [target]
      stage := if left = [] then .waiting (now + cfg.recheckInterval) else .feeding left }
  | _ => none

end Feeder

/-! ## Both feeders and the endpoint -/

/-- The endpoint, the scanner's clock, and the feeders of IPv4 (`false`) and IPv6 (`true`). -/
structure RecheckWorld where
  pool : PoolWorld
  clock : Time
  feeder : Bool → Feeder

/-- The first moment. -/
def RecheckWorld.new : RecheckWorld := ⟨.empty, 0, fun _ => .new⟩

/-- What happens to a feeder: its request begins, is answered or fails; a worker takes a target; a wait
is over; the context is done. -/
inductive FeederAct where
  | fetch (edgeHit totalsHit : Bool)
  | receive
  | fail (err : String)
  | take
  | wake
  | cancel

/-- The steps: of the endpoint, of the clock, or of a feeder. -/
inductive RecheckAct where
  | pool (a : PoolAct)
  | wait (d : Duration)
  | feeder (ipv6Only : Bool) (a : FeederAct)

/-- What a feeder does, with the endpoint after it. -/
def Feeder.next (cfg : FeederConfig) (site : Nat → Store.Site) (ipv6Only : Bool) (f : Feeder) (pool : PoolWorld) (clock : Time) :
    FeederAct → Option (Feeder × PoolWorld)
  | .fetch edgeHit totalsHit =>
    match f.stage with
    | .fetching none => (nextPool site pool (.ask (familyParams ipv6Only) edgeHit totalsHit)).map fun pool' =>
      ({ f with stage := .fetching (some pool.requests.length), fetches := clock :: f.fetches }, pool')
    | _ => none
  | .receive =>
    match f.stage with
    | .fetching (some i) =>
      match pool.requests[i]? with
      | some ⟨began, _, .ret (.full data)⟩ => some (f.fetched cfg ipv6Only began clock (.ok data.ips), pool)
      | some ⟨began, _, .ret .changed⟩ => some (f.fetched cfg ipv6Only began clock (.error "GET /api/pool: 503"), pool)
      | _ => none
    | _ => none
  | .fail err =>
    match f.stage with
    | .fetching _ => some (f.fetched cfg ipv6Only pool.now clock (.error err), pool)
    | _ => none
  | .take => (f.take cfg clock).map fun f => (f, pool)
  | .wake =>
    match f.stage with
    | .waiting deadline => if deadline ≤ clock then some ({ f with stage := .fetching none }, pool) else none
    | _ => none
  | .cancel => some ({ f with stage := .stopped }, pool)

/-- One step, the site being `site n` at the moment `n`. -/
def nextRecheck (cfg : FeederConfig) (site : Nat → Store.Site) (w : RecheckWorld) : RecheckAct → Option RecheckWorld
  | .pool a => (nextPool site w.pool a).map fun pool => { w with pool }
  | .wait d => some { w with clock := w.clock + d }
  | .feeder ipv6Only a => (((w.feeder ipv6Only).next cfg site ipv6Only w.pool w.clock a)).map fun (f, pool) =>
    { w with pool, feeder := Function.update w.feeder ipv6Only f }

end Gwsdb.Scan
