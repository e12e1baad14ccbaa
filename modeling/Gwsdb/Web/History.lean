import Gwsdb.Lib.Transition
import Gwsdb.Web.Requests

/-!
# The history of an IP in the browser

`functions/api/history.ts`, and the history section of `public/static/query.js`. A tab keeps the whole history of its IP as one
snapshot under the version of that history, in IndexedDB and in memory, and asks for a newer one. The server answers out of the
database or out of its edge cache. Each D1 query, each use of a cache and each callback of a tab is a step.
-/

namespace Gwsdb.Web

open Gwsdb.Store
open Interleave (Prog Service)
open Keyed (Table)

/-! ## The endpoint -/

/-- A check of the body. -/
structure HistoryCheck where
  ok : Bool
  rttMs : Int
  reason : String
  detail : String
  checkedAt : Option String
  scanMode : String
  deriving DecidableEq

/-- The body of an answer. `reset` is none where the field is missing. -/
structure HistoryBody where
  version : Nat
  reset : Option Bool
  checks : List HistoryCheck
  deriving DecidableEq

/-- What the endpoint answers. -/
inductive HistoryResponse where
  /-- A status with the text under `error`. -/
  | text (status : Nat) (message : String)
  /-- Status 503, a writer came in between. -/
  | retry
  | body (b : HistoryBody)
  deriving DecidableEq

/-- A check as the body shows it; `toISOString` throws on an invalid date. -/
def toHistoryCheck (check : IPCheckHistoryRow) : Except String HistoryCheck := do
  let checkedAt ← match check.checkedAt with
    | none => pure none
    | some date => do pure (some (← Store.toISOString date))
  return { ok := check.ok, rttMs := check.rttMs, reason := check.reason, detail := check.detail, checkedAt,
           scanMode := check.scanMode }

/-- The retained checks of an IP as the body shows them. -/
def historyChecks (db : Database) (ip : String) : Except String (List HistoryCheck) :=
  (db.ipHistory ip CHECK_HISTORY_RETENTION 0).mapM toHistoryCheck

/-- A call of the endpoint. An entry of the edge cache has the IP and the version in its key. -/
inductive HistoryCall where
  | ipHistoryVersion (ip : String)
  | ipHistory (ip : String) (limit offset : Nat)
  | cacheMatch (ip : String) (version : Nat)
  /-- `context.waitUntil(cache.put(..))`: the entry comes into the cache at some later time. -/
  | waitUntilPut (ip : String) (version : Nat) (b : HistoryBody)

/-- What a call replies. -/
abbrev HistoryReply : HistoryCall → Type
  | .ipHistoryVersion _ => Nat
  | .ipHistory _ _ _ => List IPCheckHistoryRow
  | .cacheMatch _ _ => Option HistoryBody
  | .waitUntilPut _ _ _ => Unit

/-- The edge cache, and the entries on their way into it. -/
structure Edge where
  cache : Table (String × Nat) HistoryBody
  puts : List ((String × Nat) × HistoryBody)

/-- The reply of a call at a state of the database, and the edge cache after it. -/
def answerHistory (db : Database) : Service HistoryCall HistoryReply Edge
  | .ipHistoryVersion ip, e => (db.ipHistoryVersion ip, e)
  | .ipHistory ip limit offset, e => (db.ipHistory ip limit offset, e)
  | .cacheMatch ip version, e => (e.cache.get? (ip, version), e)
  | .waitUntilPut ip version b, e => ((), { e with puts := e.puts ++ [((ip, version), b)] })

/-- A program of the endpoint. -/
abbrev HistoryProgram := Prog HistoryCall HistoryReply String HistoryResponse

/-- One call. -/
abbrev askHistory (e : HistoryCall) : Prog HistoryCall HistoryReply String (HistoryReply e) := Prog.perform e

/-- The answer with the checks read, which goes into the edge cache unless it is a reset. -/
def putHistory (ip : String) (version : Nat) (reset : Bool) (checks : List HistoryCheck) : HistoryProgram :=
  if reset then return .body ⟨version, some reset, checks⟩
  else do
    let _ ← askHistory (.waitUntilPut ip version ⟨version, some reset, checks⟩)
    return .body ⟨version, some reset, checks⟩

/-- The checks read are answered if the version is still the same. -/
def recheckHistory (ip : String) (version : Nat) (reset : Bool) (checks : List IPCheckHistoryRow) : HistoryProgram := do
  let now ← askHistory (.ipHistoryVersion ip)
  if now ≠ version then return .retry
  let checks ← Prog.ofExcept (checks.mapM toHistoryCheck)
  putHistory ip version reset checks

/-- The checks are read from the database. -/
def loadHistory (ip : String) (version : Nat) (reset : Bool) : HistoryProgram := do
  let checks ← askHistory (.ipHistory ip CHECK_HISTORY_RETENTION 0)
  recheckHistory ip version reset checks

/-- The entry of the edge cache, if it has one. -/
def cachedHistory (ip : String) (version : Nat) : HistoryProgram := do
  let cached ← askHistory (.cacheMatch ip version)
  match cached with
  | some b => return .body b
  | none => loadHistory ip version false

/-- What is done once the version is known. A cache may always miss: `edgeHit` says whether it answers when it has an entry. -/
def versionedHistory (ip : String) (since : Option Nat) (edgeHit : Bool) (version : Nat) : HistoryProgram :=
  if since = some version then return .body ⟨version, none, []⟩
  else if since.any (version < ·) then loadHistory ip version true
  else if edgeHit then cachedHistory ip version
  else loadHistory ip version false

/-- The endpoint for a valid IP and `since`. -/
def serveHistory (ip : String) (since : Option Nat) (edgeHit : Bool) : HistoryProgram := do
  let version ← askHistory (.ipHistoryVersion ip)
  versionedHistory ip since edgeHit version

/-- `Number.MAX_SAFE_INTEGER`. -/
def MAX_SAFE_INTEGER : Int := 9007199254740991

/-- `since` as a number, if it is a safe integer that is not negative. -/
def readSince (text : String) : Option Nat :=
  (JsNumber.integer text.toList).bind fun n => if 0 ≤ n ∧ n ≤ MAX_SAFE_INTEGER then some n.toNat else none

/-- `onRequestGet` of `/api/history`. -/
def handleHistory (ip : String) (since : Option String) (edgeHit : Bool) : HistoryProgram :=
  match normalize ip with
  | none => return .text 400 "invalid ip"
  | some ip =>
    match since with
    | none => serveHistory ip none edgeHit
    | some text =>
      match readSince text with
      | none => return .text 400 "since must be a non-negative integer"
      | some since => serveHistory ip (some since) edgeHit

/-! ## The tabs -/

/-- A snapshot of IndexedDB, under its IP. -/
structure HistorySnapshot where
  version : Nat
  checks : List HistoryCheck
  deriving DecidableEq

/-- Where a `sync` stands: its request is served, its data has come, its snapshot is about to be written, or
it has the snapshot to show. -/
inductive SyncStage where
  | fetch (p : HistoryProgram)
  | data (b : HistoryBody)
  | write (s : HistorySnapshot) (force : Bool)
  | fresh (s : HistorySnapshot)

/-- A `sync`: the `since` of its request and where it stands. No step reads the moment it began. -/
structure Sync where
  began : Nat
  since : Option String
  stage : SyncStage

/-- Where a tab stands in its start: it opens the database, reads its snapshot, or has begun the first `sync`. -/
inductive Boot where
  | opening
  | reading
  | ready
  deriving DecidableEq

/-- A tab of a browser: its IP, whether it has the database, its snapshot, the checks it shows and its syncs. -/
structure HistoryTab where
  browser : Nat
  ip : String
  boot : Boot
  db : Bool
  cache : Option HistorySnapshot
  checks : List HistoryCheck
  syncs : List Sync

namespace HistoryTab

/-- The request of `sync` carries the version of the snapshot. -/
def begin (t : HistoryTab) (now : Nat) (edgeHit : Bool) : Sync where
  began := now
  since := t.cache.map fun c => toString c.version
  stage := .fetch (handleHistory t.ip (t.cache.map fun c => toString c.version) edgeHit)

/-- `sync` begins. -/
def sync (t : HistoryTab) (now : Nat) (edgeHit : Bool) : HistoryTab := { t with syncs := t.syncs ++ [t.begin now edgeHit] }

/-- What is done with a new snapshot. -/
def save (t : HistoryTab) (s : HistorySnapshot) (force : Bool) : SyncStage := if t.db then .write s force else .fresh s

/-- The first callback of `sync`, on the data of an answer. -/
def receive (t : HistoryTab) (b : HistoryBody) : SyncStage :=
  match t.cache with
  | none => t.save ⟨b.version, b.checks⟩ (b.reset = some true)
  | some c =>
    if b.version = c.version then .fresh c
    else if b.reset ≠ some true ∧ b.version < c.version then .fresh c
    else t.save ⟨b.version, b.checks⟩ (b.reset = some true)

/-- The second callback of `sync`: the snapshot is shown unless one of its version is. -/
def accept (t : HistoryTab) (fresh : HistorySnapshot) : HistoryTab :=
  match t.cache with
  | none => { t with cache := some fresh, checks := fresh.checks }
  | some c => if fresh.version ≠ c.version then { t with cache := some fresh, checks := fresh.checks } else t

/-- `readCache` has ended: the snapshot it found is shown. -/
def read (t : HistoryTab) (found : Option HistorySnapshot) : HistoryTab :=
  { t with boot := .ready, cache := found, checks := (found.map (·.checks)).getD t.checks }

end HistoryTab

/-- The snapshots of each browser, by IP. -/
abbrev SnapshotStore := Table (Nat × String) HistorySnapshot

/-- `writeCache`, one transaction: what it saved, and the store after it. -/
def writeSnapshot (store : SnapshotStore) (key : Nat × String) (s : HistorySnapshot)
    (force : Bool) : HistorySnapshot × SnapshotStore :=
  match store.get? key with
  | none => (s, store.put key s)
  | some current => if ¬force ∧ current.version > s.version then (current, store) else (s, store.put key s)

/-- The present moment of the server, its edge cache, the browsers' databases and the tabs. -/
structure HistoryWorld where
  now : Nat
  edge : Edge
  store : SnapshotStore
  tabs : List HistoryTab

/-- The first moment: nothing is cached. -/
def HistoryWorld.empty : HistoryWorld := ⟨0, ⟨Table.empty, []⟩, Table.empty, []⟩

/-- What happens to a tab: it has its database or its snapshot, or has neither; a check of the IP has ended and the history is
asked for again; a sync goes on or ends with an error. -/
inductive TabAct where
  | openCache
  | readCache (edgeHit : Bool)
  | openFails (edgeHit : Bool)
  | refresh (edgeHit : Bool)
  | go (j : Nat)
  | fail (j : Nat)

/-- The steps. The server's database moves on; a tab opens; something happens to a tab; an entry comes into
the edge cache or leaves it. -/
inductive HistoryAct where
  | tick
  | openTab (browser : Nat) (ip : String)
  | tab (i : Nat) (a : TabAct)
  | settle (k : Nat)
  | drop (key : String × Nat)

namespace HistoryTab

/-- A sync at another stage. -/
def setSync (t : HistoryTab) (j : Nat) (y : Sync) (stage : SyncStage) : HistoryTab :=
  { t with syncs := t.syncs.set j { y with stage } }

/-- A sync has ended. -/
def endSync (t : HistoryTab) (j : Nat) : HistoryTab := { t with syncs := t.syncs.eraseIdx j }

/-- The next step of a sync, with the edge cache and the browsers' databases after it. -/
def goSync (t : HistoryTab) (db : Database) (e : Edge) (store : SnapshotStore) (j : Nat) (y : Sync) :
    HistoryTab × Edge × SnapshotStore :=
  match y.stage with
  | .fetch (.call c k) => (t.setSync j y (.fetch (k (answerHistory db c e).1)), (answerHistory db c e).2, store)
  | .fetch (.ret (.body b)) => (t.setSync j y (.data b), e, store)
  | .fetch _ => (t.endSync j, e, store)
  | .data b => (t.setSync j y (t.receive b), e, store)
  | .write s force =>
    (t.setSync j y (.fresh (writeSnapshot store (t.browser, t.ip) s force).1), e,
      (writeSnapshot store (t.browser, t.ip) s force).2)
  | .fresh s => ((t.accept s).endSync j, e, store)

/-- What happens to a tab at a moment. -/
def next (t : HistoryTab) (now : Nat) (db : Database) (e : Edge) (store : SnapshotStore) :
    TabAct → Option (HistoryTab × Edge × SnapshotStore)
  | .openCache => if t.boot = .opening then some ({ t with boot := .reading, db := true }, e, store) else none
  | .readCache edgeHit =>
    if t.boot = .reading then some ((t.read (store.get? (t.browser, t.ip))).sync now edgeHit, e, store) else none
  | .openFails edgeHit =>
    if t.boot = .ready then none
    else some ({ t with boot := .ready, db := false, cache := none }.sync now edgeHit, e, store)
  | .refresh edgeHit => some (t.sync now edgeHit, e, store)
  | .go j => t.syncs[j]?.map (t.goSync db e store j)
  | .fail j => if j < t.syncs.length then some (t.endSync j, e, store) else none

end HistoryTab

/-- One step, the database being `db n` at the moment `n`. -/
def nextHistory (db : Nat → Database) (w : HistoryWorld) : HistoryAct → Option HistoryWorld
  | .tick => some { w with now := w.now + 1 }
  | .openTab browser ip => some { w with tabs := w.tabs ++ [⟨browser, ip, .opening, false, none, [], []⟩] }
  | .tab i a => do
    let t ← w.tabs[i]?
    let (t, edge, store) ← t.next w.now (db w.now) w.edge w.store a
    some { w with edge, store, tabs := w.tabs.set i t }
  | .settle k => w.edge.puts[k]?.map fun put =>
    { w with edge := ⟨w.edge.cache.put put.1 put.2, w.edge.puts.eraseIdx k⟩ }
  | .drop key => some { w with edge := { w.edge with cache := w.edge.cache.filter fun k _ => k ≠ key } }

end Gwsdb.Web
