import Gwsdb.Lib.Schedule
import Gwsdb.Web.HomeCache
import Gwsdb.Web.PoolEndpoint

/-!
# The home page over the site

`load`, `syncCache`, `fetchFull` and `loadWithoutCache` of `public/static/home.js`, with the two endpoints as they are:
`/api/pool` of `Gwsdb.Web.PoolEndpoint`, and `/api/pool/changes` as one of the tasks of the site. Every callback of a tab is a
step; the tabs of a browser share its IndexedDB database.
-/

namespace Gwsdb.Web

open Gwsdb.Store
open Interleave (Run)

/-- What `renderData` shows: the metadata, and the rows by IP. -/
structure Shown where
  metadata : Metadata
  rows : String → Option IPRow

/-- Where a `load` stands: the database is opened, or read; the changes since a version are fetched, or the whole pool, by a
request to the endpoint; the whole pool is fetched for a tab without a database; a body is about to be written, or merged; the
cache is read again; the load has ended, with an error or without one. -/
inductive LoadStage where
  | opening
  | reading
  | fetchChanges (since began : Nat)
  | fetchFull (request : Nat)
  | fetchAlone (request : Nat)
  | writeFull (data : PoolData)
  | merge (data : PoolData)
  | rereading
  | done
  | failed
  deriving DecidableEq

/-- A tab: its browser, the version of the cache it found, what it shows, and where its load stands. No step
reads the moment it was opened. -/
structure HomeTab where
  browser : Nat
  opened : Nat
  cached : Option Nat
  shown : Option Shown
  stage : LoadStage

/-- The endpoint, the databases of the browsers, and the tabs. -/
structure HomeWorld where
  pool : PoolWorld
  caches : Nat → Cache
  tabs : List HomeTab

/-- The first moment: nothing is cached. -/
def HomeWorld.empty : HomeWorld := ⟨.empty, fun _ => ⟨fun _ => none, none⟩, []⟩

/-- What happens to a tab: it has its database, or no use of it; it reads the cache; thread `j` of the site has answered its
request for the changes, or the endpoint its request for the pool; it writes, or reads the cache again; its load fails. -/
inductive LoadAct where
  | opened
  | unavailable (edgeHit totalsHit : Bool)
  | read (edgeHit totalsHit : Bool)
  | answered (j : Nat) (edgeHit totalsHit : Bool)
  | received
  | written
  | reread
  | fail

/-- The steps: of the endpoint; a tab opens; something happens to a tab. -/
inductive HomeAct where
  | pool (a : PoolAct)
  | openTab (browser : Nat)
  | tab (i : Nat) (a : LoadAct)

/-- The request for the whole pool: the endpoint with it, and its place. -/
def PoolWorld.ask (w : PoolWorld) (edgeHit totalsHit : Bool) : PoolWorld :=
  { w with requests := w.requests ++ [⟨w.now, [], handlePool [] edgeHit totalsHit⟩] }

/-- `readCache`: what the cache holds, if it has metadata. -/
def Cache.read (c : Cache) : Option Shown := c.metadata.map fun m => ⟨m, c.rows⟩

namespace HomeTab

/-- What the first callback of `syncCache` does with the answer to a request for the changes since a version. -/
def syncCache (t : HomeTab) (pool : PoolWorld) (since : Nat) (edgeHit totalsHit : Bool) : Response → HomeTab × PoolWorld
  | .reset _ => ({ t with stage := .fetchFull pool.requests.length }, pool.ask edgeHit totalsHit)
  | .changes data => (if data.metadata.version = since then { t with stage := .done } else { t with stage := .merge data }, pool)
  | _ => ({ t with stage := .failed }, pool)

/-- The last callback of `load`: a fresh cache is shown unless its version is that of the cache found first. -/
def finish (t : HomeTab) (fresh : Option Shown) : HomeTab :=
  match fresh with
  | none => { t with stage := .done }
  | some s => if t.cached = some s.metadata.version then { t with stage := .done } else { t with shown := some s, stage := .done }

/-- What happens to a tab: the tab, the endpoint and the database of its browser after it. -/
def next (r : Run start serve) (t : HomeTab) (pool : PoolWorld) (c : Cache) : LoadAct → Option (HomeTab × PoolWorld × Cache)
  | .opened =>
    match t.stage with
    | .opening => some ({ t with stage := .reading }, pool, c)
    | _ => none
  | .unavailable edgeHit totalsHit =>
    match t.stage with
    | .opening | .reading => some ({ t with stage := .fetchAlone pool.requests.length }, pool.ask edgeHit totalsHit, c)
    | _ => none
  | .read edgeHit totalsHit =>
    match t.stage with
    | .reading =>
      match c.read with
      | none => some ({ t with stage := .fetchFull pool.requests.length }, pool.ask edgeHit totalsHit, c)
      | some s => some
        ({ t with cached := some s.metadata.version, shown := some s, stage := .fetchChanges s.metadata.version pool.now },
          pool, c)
    | _ => none
  | .answered j edgeHit totalsHit =>
    match t.stage with
    | .fetchChanges since began =>
      match (r.config pool.now).threads[j]? with
      | some ⟨.changes since' _ _, .ret response, _⟩ =>
        if (r.config began).threads.length ≤ j ∧ since' = since then
          some ((t.syncCache pool since edgeHit totalsHit response).1, (t.syncCache pool since edgeHit totalsHit response).2, c)
        else none
      | _ => none
    | _ => none
  | .received =>
    match t.stage with
    | .fetchFull i =>
      match pool.requests[i]?.bind fun q => q.prog.answer? with
      | some (.full data) => some ({ t with stage := .writeFull data }, pool, c)
      | some .changed => some ({ t with stage := .failed }, pool, c)
      | none => none
    | .fetchAlone i =>
      match pool.requests[i]?.bind fun q => q.prog.answer? with
      | some (.full data) => some ({ t with shown := some ⟨data.metadata, storeOf data.ips⟩, stage := .done }, pool, c)
      | some .changed => some ({ t with stage := .failed }, pool, c)
      | none => none
    | _ => none
  | .written =>
    match t.stage with
    | .writeFull data => some ({ t with stage := .rereading }, pool, writeFullCache c data)
    | .merge data => some ({ t with stage := .rereading }, pool, applyChanges c data)
    | _ => none
  | .reread =>
    match t.stage with
    | .rereading => some (t.finish c.read, pool, c)
    | _ => none
  | .fail =>
    match t.stage with
    | .done => none
    | _ => some ({ t with stage := .failed }, pool, c)

end HomeTab

/-- One step beside a run of the site. -/
def nextHome (r : Run start serve) (w : HomeWorld) : HomeAct → Option HomeWorld
  | .pool a => (nextPool r.state w.pool a).map fun pool => { w with pool }
  | .openTab browser => some { w with tabs := w.tabs ++ [⟨browser, w.pool.now, none, none, .opening⟩] }
  | .tab i a => do
    let t ← w.tabs[i]?
    let (t', pool, c) ← t.next r w.pool (w.caches t.browser) a
    some { w with pool, caches := Function.update w.caches t.browser c, tabs := w.tabs.set i t' }

end Gwsdb.Web
