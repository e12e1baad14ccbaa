import Gwsdb.Web.Row
import Gwsdb.Lib.DeltaSync
import Gwsdb.Lib.Table
import Gwsdb.Lib.Transition

/-!
# The browser's cache of the pool

`public/static/home.js`: several tabs share one IndexedDB database with a row store and one metadata record. A tab reads the
cache, fetches `/api/pool` or `/api/pool/changes`, and commits what it got in one transaction; each of these is a step. The server
is taken at its word: each change of its pool takes a new version, stamps the rows it writes and moves `reset_version` when it
removes rows, and an answer is exact for the version it carries.
-/

namespace Gwsdb.Web

open Keyed (Table)

/-! ## The server -/

/-- The pool as the server publishes it: rows under their `ip`, stamped with a version the pool has reached. -/
structure Server where
  rows : Table String IPRow
  version : Nat
  resetVersion : Nat
  keyed : ∀ ip r, rows.get? ip = some r → r.ip = ip
  stamped : ∀ ip r, rows.get? ip = some r → r.revision ≤ version
  reset_le : resetVersion ≤ version

/-- The rows of the pool. -/
def Server.ips (p : Server) : List IPRow := p.rows.entries.map Prod.snd

/-- The pool's rows, version and last removal. -/
def Server.snapshot (p : Server) : DeltaSync.Snapshot String IPRow := ⟨p.rows.get?, p.version, p.resetVersion⟩

/-- A row put in a table under its `ip`, stamped with version `v`. -/
def putRow (v : Nat) (t : Table String IPRow) (r : IPRow) : Table String IPRow := t.put r.ip { r with revision := v }

/-- Rows put one after the other: a row of the table is a row put with the new stamp, or an old one. -/
theorem get?_putRows (v : Nat) (t : Table String IPRow) (puts : List IPRow) {ip : String} {r : IPRow}
    (h : (puts.foldl (putRow v) t).get? ip = some r) : (r.ip = ip ∧ r.revision = v) ∨ t.get? ip = some r := by
  induction puts generalizing t with
  | nil => exact Or.inr h
  | cons p puts ih =>
    rcases ih (putRow v t p) h with h | h
    · exact Or.inl h
    · unfold putRow at h
      rw [Table.get?_put] at h
      split at h
      · cases h
        exact Or.inl ⟨(‹ip = p.ip›).symm, rfl⟩
      · exact Or.inr h

/-- A change of the pool: the rows evicted go, the rows put are stamped with the new version. -/
def Server.publish (p : Server) (puts : List IPRow) (evicts : List String) : Server where
  rows := puts.foldl (putRow (p.version + 1)) (p.rows.filter fun ip _ => decide (ip ∉ evicts))
  version := p.version + 1
  resetVersion := if evicts = [] then p.resetVersion else p.version + 1
  keyed := by
    intro ip r h
    rcases get?_putRows _ _ _ h with ⟨h, -⟩ | h
    · exact h
    · rw [Table.get?_filter] at h
      exact p.keyed ip r (Option.filter_eq_some_iff.1 h).1
  stamped := by
    intro ip r h
    rcases get?_putRows _ _ _ h with ⟨-, h⟩ | h
    · exact h.le
    · rw [Table.get?_filter] at h
      exact (p.stamped ip r (Option.filter_eq_some_iff.1 h).1).trans (Nat.le_succ _)
  reset_le := by
    have := p.reset_le
    split <;> omega

/-- The answer of `/api/pool`. -/
def Server.full (p : Server) (display : Metadata) : PoolData :=
  ⟨{ display with version := p.version, count := some p.ips.length }, p.ips⟩

/-- The answer of `/api/pool/changes`, when it is not a reset. -/
def Server.changes (p : Server) (since : Nat) (display : Metadata) : PoolData :=
  ⟨{ display with version := p.version, count := none },
    p.ips.filter fun r => decide (since < r.revision) && decide (r.revision ≤ p.version)⟩

/-- Whether the server answers a request for the changes since a version with `reset`. -/
def Server.resets (p : Server) (since : Nat) : Bool := decide (p.version < since) || decide (since < p.resetVersion)

/-! ## The cache -/

/-- The IndexedDB database: the row store by `ip`, and the metadata record. -/
structure Cache where
  rows : String → Option IPRow
  metadata : Option Metadata

/-- The row store cleared and filled. -/
def storeOf (ips : List IPRow) : String → Option IPRow := DeltaSync.overwrite IPRow.ip (fun _ => none) ips

/-- `writeFullCache`, one transaction: the store is replaced, unless its metadata is of a later version. -/
def writeFullCache (c : Cache) (data : PoolData) : Cache :=
  match c.metadata with
  | some current =>
    if current.version > data.metadata.version then c else { rows := storeOf data.ips, metadata := some data.metadata }
  | none => { rows := storeOf data.ips, metadata := some data.metadata }

/-- One row of `applyChanges`: put unless the store, as it was when the transaction began, holds a later revision of it. -/
def applyRow (old rows : String → Option IPRow) (row : IPRow) : String → Option IPRow :=
  match old row.ip with
  | none => Function.update rows row.ip (some row)
  | some r => if r.revision ≤ row.revision then Function.update rows row.ip (some row) else rows

/-- `applyChanges`, one transaction: the rows are merged by revision, the metadata by version. -/
def applyChanges (c : Cache) (data : PoolData) : Cache where
  rows := data.ips.foldl (applyRow c.rows) c.rows
  metadata :=
    match c.metadata with
    | none => some data.metadata
    | some current => if current.version ≤ data.metadata.version then some data.metadata else some current

/-! ## The tabs -/

/-- Where a tab stands in `load`: before it reads the cache; about to fetch the full pool, or the changes since the version it
read; holding a body it is about to commit; done. -/
inductive Tab
  | opened
  | fetchFull
  | fetchChanges (since : Nat)
  | gotFull (data : PoolData)
  | gotChanges (data : PoolData)
  | done

/-- The server with every version of its pool so far, the shared cache, and the tabs. -/
structure Site where
  server : Server
  past : Nat → Server
  cache : Cache
  tabs : List Tab

/-- A server, and a browser that has not been there. -/
def Site.start (p : Server) : Site where
  server := p
  past := fun _ => p
  cache := { rows := fun _ => none, metadata := none }
  tabs := []

/-- The steps: the server changes its pool; a tab opens, goes on (reads the cache, has its fetch answered, commits), or gives up
after an error. `display` holds the answer's other fields, which nothing depends on. -/
inductive Act
  | publish (puts : List IPRow) (evicts : List String)
  | openTab
  | go (i : Nat) (display : Metadata)
  | giveUp (i : Nat)

/-- What the fetch of the changes since a version leads to. -/
def answerChanges (p : Server) (since : Nat) (display : Metadata) : Tab :=
  if p.resets since then .fetchFull else if p.version = since then .done else .gotChanges (p.changes since display)

/-- The next step of a tab: where it stands afterwards, and the cache. -/
def goOn (p : Server) (c : Cache) (display : Metadata) : Tab → Option (Tab × Cache)
  | .opened => some (match c.metadata with
    | none => .fetchFull
    | some m => .fetchChanges m.version, c)
  | .fetchFull => some (.gotFull (p.full display), c)
  | .fetchChanges since => some (answerChanges p since display, c)
  | .gotFull data => some (.done, writeFullCache c data)
  | .gotChanges data => some (.done, applyChanges c data)
  | .done => none

/-- One step of the site. -/
def nextSite (s : Site) : Act → Option Site
  | .publish puts evicts =>
    let p := s.server.publish puts evicts
    some { s with server := p, past := Function.update s.past p.version p }
  | .openTab => some { s with tabs := s.tabs ++ [.opened] }
  | .go i display =>
    match s.tabs[i]? with
    | none => none
    | some t =>
      match goOn s.server s.cache display t with
      | none => none
      | some (t', c) => some { s with tabs := s.tabs.set i t', cache := c }
  | .giveUp i => if i < s.tabs.length then some { s with tabs := s.tabs.set i .done } else none

end Gwsdb.Web
