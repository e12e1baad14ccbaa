import Gwsdb.Lib.Transition
import Gwsdb.Web.EdgeCache

/-!
# The whole pool

`functions/api/pool.ts`, and `loadPool` of `src/pool.ts` as it calls it. The answers are kept in an edge cache under
the URL of the request, with the version of the pool in it. Each D1 query and each use of a cache is a step; the
site goes on beside the requests.
-/

namespace Gwsdb.Web

open Gwsdb.Store
open Interleave (Prog Service)
open Keyed (Table)

/-- `cacheURL`: the parameters of the request, with the schema and the version. -/
def cacheURL (params : SearchParams) (version : Nat) : SearchParams := (params.set "schema" "2").set "v" (toString version)

/-! ## The endpoint -/

/-- What the endpoint answers. -/
inductive PoolResponse where
  | full (data : PoolData)
  /-- Status 503, a writer came in between. -/
  | changed
  deriving DecidableEq

/-- `toIPRow`, without the country, which the endpoint drops. -/
def toIPRow (st : IPStatus) : IPRow where
  ip := st.ip
  revision := st.revision
  ptrList := st.ptrHostname
  status := statusOf st
  firstSeen := formatTime st.firstSeen
  lastSeen := formatTime st.lastSeen
  lastRttMs := st.lastRttMs

/-- A program of the endpoint. -/
abbrev PoolProgram (α : Type) := EdgeProgram PoolData α

/-- `listKnownIPs` as `loadPool` calls it for the endpoint. -/
def poolOptions (family : Option Nat) : ListKnownIPsOptions := LoadPoolOptions.known ⟨none, none, family⟩

/-- The body of an answer. -/
def poolBody (version : Nat) (known : List IPStatus) (stats : Stats) : PoolData where
  metadata :=
    { version, count := some known.length, scanMode := (stats.2.bind (·.2)).getD "",
      totalKnownIPs := stats.1.1, totalChecks := stats.1.2,
      lastCheckAt := formatTime (stats.2.bind fun c => fromSQLiteDateTime (some c.1)) }
  ips := known.map toIPRow

/-- The answer goes to the client and into the edge cache. -/
def putPool (key : SearchParams) (data : PoolData) : PoolProgram PoolResponse := do
  let _ ← askEdge (.waitUntilPut key data)
  return .full data

/-- What was loaded is answered if the version is still the same. -/
def recheckPool (params : SearchParams) (version : Nat) (known : List IPStatus) (stats : Stats) : PoolProgram PoolResponse := do
  let now ← askEdge (.store .poolVersion)
  if now ≠ version then return .changed
  putPool (cacheURL params version) (poolBody version known stats)

/-- `loadPool`, and what is done with it. -/
def loadPool (params : SearchParams) (version : Nat) (totalsHit : Bool) : PoolProgram PoolResponse := do
  let known ← askEdge (.listKnownIPs (poolOptions (familyOf params)))
  let stats ← ofStore (overview totalsHit)
  recheckPool params version known stats

/-- The entry of the edge cache, if it has one. -/
def cachedPool (params : SearchParams) (version : Nat) (totalsHit : Bool) : PoolProgram PoolResponse := do
  let cached ← askEdge (.cacheMatch (cacheURL params version))
  match cached with
  | some data => return .full data
  | none => loadPool params version totalsHit

/-- `onRequestGet` of `/api/pool`. A cache may always miss: `edgeHit` and `totalsHit` say whether it
answers when it has an entry. -/
def handlePool (params : SearchParams) (edgeHit totalsHit : Bool) : PoolProgram PoolResponse := do
  let version ← askEdge (.store .poolVersion)
  if edgeHit then cachedPool params version totalsHit else loadPool params version totalsHit

/-! ## Requests -/

/-- A request: the moment it began, its parameters, and what is left of it. -/
structure PoolRequest where
  began : Nat
  params : SearchParams
  prog : PoolProgram PoolResponse

/-- The present moment of the site, the caches and the requests, in the order they began. -/
structure PoolWorld where
  now : Nat
  edge : EdgeCaches PoolData
  requests : List PoolRequest

/-- The first moment: nothing is cached. -/
def PoolWorld.empty : PoolWorld := ⟨0, .empty, []⟩

/-- The steps. The site moves on; a request begins, or makes its next call; an entry comes into the edge cache or leaves it; the
totals are those another request of the data centre has cached, or expire. -/
inductive PoolAct where
  | tick
  | ask (params : SearchParams) (edgeHit totalsHit : Bool)
  | call (i : Nat)
  | settle (k : Nat)
  | drop (key : SearchParams)
  | share
  | expire

/-- One step, the site being `site n` at the moment `n`. -/
def nextPool (site : Nat → Store.Site) (w : PoolWorld) : PoolAct → Option PoolWorld
  | .tick => some { w with now := w.now + 1 }
  | .ask params edgeHit totalsHit =>
    some { w with requests := w.requests ++ [⟨w.now, params, handlePool params edgeHit totalsHit⟩] }
  | .call i =>
    match w.requests[i]? with
    | some ⟨began, params, .call c k⟩ => some
      { w with
        edge := (answerEdge (site w.now) c w.edge).2
        requests := w.requests.set i ⟨began, params, k (answerEdge (site w.now) c w.edge).1⟩ }
    | _ => none
  | .settle k => w.edge.puts[k]?.map fun put =>
    { w with edge := { w.edge with cache := w.edge.cache.put put.1 put.2, puts := w.edge.puts.eraseIdx k } }
  | .drop key => some { w with edge := { w.edge with cache := w.edge.cache.filter fun k _ => k ≠ key } }
  | .share => some { w with edge := { w.edge with totals := (site w.now).totals } }
  | .expire => some { w with edge := { w.edge with totals := none } }

end Gwsdb.Web
