import Gwsdb.Store.Programs

/-!
# Reading cached hostnames

`getPTR`, `listKnownIPs` and `rowToIPStatus` of `src/store.ts`. SQLite orders NULL before every value, its LIKE ignores the case
of ASCII letters, and it leaves the order of rows open that a query does not tell apart.
-/

namespace Gwsdb.Store

/-! ## One IP -/

/-- `getPTR`: the entry of an IP, none once its TTL is over. -/
def Database.getPTR (db : Database) (now : Int) (ip : String) : Except String (Option PTRCacheEntry) :=
  match db.ptr.get? ip with
  | none => .ok none
  | some row =>
    match fromSQLiteDateTime (some row.checkedAt) with
    | none => .error "Cannot read properties of null (reading 'getTime')"
    | some checkedAt =>
      if checkedAt.any fun t => decide (row.ttlSeconds * 1000 < now - t) then .ok none
      else .ok (some ⟨ip, splitStrings (row.ptrHostname.getD ""), row.lookupOk, row.ttlSeconds, checkedAt⟩)

/-! ## The pool -/

/-- `IPStatus`. -/
structure IPStatus where
  ip : String
  revision : Nat
  isIPv6 : Bool
  scanMode : String
  firstSeen : Option JsDate
  lastSeen : Option JsDate
  lastRttMs : Int
  timesSeen : Nat
  lastCheckedAt : Option JsDate
  hasCheck : Bool
  lastCheckOk : Bool
  ptrHostname : List String

/-- `rowToIPStatus`. -/
def JoinedRow.toIPStatus (j : JoinedRow) : IPStatus where
  ip := j.ip
  revision := j.row.revision
  isIPv6 := j.row.isIPv6
  scanMode := j.row.scanMode.getD ""
  firstSeen := fromSQLiteDateTime j.row.firstSeen
  lastSeen := fromSQLiteDateTime j.row.lastSeen
  lastRttMs := j.row.lastRttMs.getD 0
  timesSeen := j.row.timesSeen
  lastCheckedAt := fromSQLiteDateTime j.row.lastCheckedAt
  hasCheck := j.row.lastCheckOk.isSome
  lastCheckOk := j.row.lastCheckOk == some true
  ptrHostname := splitStrings j.ptrHostname

/-- The columns of `listKnownIPsSortColumns`. -/
inductive SortColumn where
  | ip
  | ptr
  | status
  | firstSeen
  | lastSeen
  | rtt

/-- `ListKnownIPsOptions`; without a column of the list the rows are sorted by `last_seen`. -/
structure ListKnownIPsOptions where
  onlyUp : Bool
  family : Option Nat
  search : String
  sortBy : Option SortColumn
  sortDesc : Bool
  limit : Option Nat

/-- `LIKE`: the pattern and the text. -/
def like : List Char → List Char → Bool
  | [], s => s.isEmpty
  | '%' :: p, s => s.tails.any (like p)
  | '_' :: p, _ :: s => like p s
  | c :: p, d :: s => c.toLower = d.toLower && like p s
  | _ :: _, [] => false

/-- One value is not after another, NULL before all others. -/
def nullFirst {α : Type} [LE α] [DecidableLE α] : Option α → Option α → Bool
  | none, _ => true
  | some _, none => false
  | some a, some b => a ≤ b

namespace Database

/-- The cached hostnames of an IP as the left join has them. -/
def ptrColumn (db : Database) (ip : String) : Option String := (db.ptr.get? ip).bind (·.ptrHostname)

/-- A row is not after another in a column. -/
def columnLE (db : Database) (a b : String × PoolRow) : SortColumn → Bool
  | .ip => a.1 ≤ b.1
  | .ptr => nullFirst (db.ptrColumn a.1) (db.ptrColumn b.1)
  | .status => nullFirst a.2.lastCheckOk b.2.lastCheckOk
  | .firstSeen => nullFirst a.2.firstSeen b.2.firstSeen
  | .lastSeen => nullFirst a.2.lastSeen b.2.lastSeen
  | .rtt => nullFirst a.2.lastRttMs b.2.lastRttMs

/-- `ORDER BY`: the column, one way or the other, and among equals the latest `last_seen` first. -/
def rowLE (db : Database) (opts : ListKnownIPsOptions) (a b : String × PoolRow) : Bool :=
  let column := opts.sortBy.getD .lastSeen
  let le := if opts.sortDesc then db.columnLE b a column else db.columnLE a b column
  let ge := if opts.sortDesc then db.columnLE a b column else db.columnLE b a column
  le && (!ge || db.columnLE b a .lastSeen)

/-- `WHERE`: the conditions of the options that are set. -/
def listed (db : Database) (opts : ListKnownIPsOptions) (e : String × PoolRow) : Bool :=
  let pattern := '%' :: (opts.search.toList ++ ['%'])
  (!opts.onlyUp || e.2.lastCheckOk != some false) &&
    (opts.family != some 4 || !e.2.isIPv6) && (opts.family != some 6 || e.2.isIPv6) &&
    (opts.search == "" || like pattern e.1.toList || (db.ptrColumn e.1).any fun ptr => like pattern ptr.toList)

/-- `listKnownIPs`. -/
def listKnownIPs (db : Database) (opts : ListKnownIPsOptions) : List IPStatus :=
  let rows := (db.pool.entries.filter (db.listed opts)).insertionSort fun a b => db.rowLE opts a b
  let rows := match opts.limit with
    | none => rows
    | some limit => if 0 < limit then rows.take limit else rows
  rows.map fun e => (db.joinRow e.1 e.2).toIPStatus

end Database

end Gwsdb.Store
