import Gwsdb.Lib.Paging
import Gwsdb.Web.Geo
import Gwsdb.Web.HomePage
import Gwsdb.Web.Row

/-!
# The table of the home page

What `public/static/home.js` shows of the pool it has loaded: `filter`, `sort` and `renderPage`, and the controls that call
them. Every handler is a step.
-/

namespace Gwsdb.HomeTable

open Gwsdb (IPRow)
open Gwsdb.HomePage (Column)
open Gwsdb.Web.Geo (Location Place Text decode emptyLocation)
open JsCase (CaseData)
open JsNumber (trim)

/-! ## Rows -/

/-- A row of the data; rows of the cache may have their country already. -/
structure Entry where
  row : IPRow
  country : Option Text

/-- A row of `allRows`. -/
structure Row extends IPRow where
  country : Text

/-- `decodeRank`. -/
def decodeRank (loc : Location) : Int :=
  if loc.matched = false then 0
  else
    let base := if loc.airportCode = "any".toList then 1 else if loc.airportCode.length = 2 then 2 else 3
    base + if loc.country ≠ [] then 10 else 0

/-- `hay.indexOf(q) !== -1`. -/
def includes (hay q : Text) : Bool := hay.tails.any q.isPrefixOf

section Functions

variable (u : CaseData) (airportCodes regionalCodes : Text → Option Place)

/-- One hostname of `decodeBest`. -/
def better (best : Location × Int) (hostname : Text) : Location × Int :=
  let loc := decode u airportCodes regionalCodes hostname
  let rank := decodeRank loc
  if best.2 < rank then (loc, rank) else best

/-- `decodeBest`. -/
def decodeBest (hostnames : List Text) : Location :=
  (hostnames.foldl (better u airportCodes regionalCodes) (emptyLocation [], -1)).1

/-- The country is decoded where it is not known yet. -/
def Entry.decoded (e : Entry) : Row :=
  { e.row with country := e.country.getD (decodeBest u airportCodes regionalCodes (e.row.ptrList.map String.toList)).country }

/-- `ptrList` in one line. -/
def Row.names (r : Row) : Text := [' '].intercalate (r.ptrList.map String.toList)

/-- A row is of the family, and its IP, its names or its country have the text. -/
def passes (query : Text) (six : Bool) (r : Row) : Bool :=
  (if six then ':' ∈ r.ip.toList else ':' ∉ r.ip.toList) &&
    includes (u.toLowerCase (r.ip.toList ++ ' ' :: r.names ++ ' ' :: r.country)) (u.toLowerCase (trim query))

/-! ## Sorting -/

/-- The text that a column is sorted by, the IP and the round trip apart. -/
def Row.text (r : Row) : Column → Text
  | .ptr => r.names
  | .country => r.country
  | .firstSeen => r.firstSeen.toList
  | .lastSeen => r.lastSeen.toList
  | .ip | .rtt => []

/-- The comparison of two texts. -/
def compareText (desc : Bool) (av bv : Text) : Int :=
  if av < bv then if desc then 1 else -1 else if bv < av then if desc then -1 else 1 else 0

/-- The comparison of `sort`; that of IPs takes them to be different. -/
def compareRows (col : Column) (desc : Bool) (a b : Row) : Int :=
  match col with
  | .rtt => if desc then b.lastRttMs - a.lastRttMs else a.lastRttMs - b.lastRttMs
  | .ip => if desc then if a.ip < b.ip then 1 else -1 else if a.ip < b.ip then -1 else 1
  | col => compareText desc (u.toLowerCase (a.text col)) (u.toLowerCase (b.text col))

/-- `Array.prototype.sort`, which is stable: a row stays before another unless both ways of comparing them say otherwise. -/
def sortRows (compare : Row → Row → Int) (rows : List Row) : List Row :=
  rows.mergeSort fun a b => compare a b ≤ 0 || 0 ≤ compare b a

/-- The values 0, 1 and 2 of `sortState.dir`. -/
inductive Dir where
  | asc
  | desc
  | natural
  deriving DecidableEq

/-- `cycle`. -/
def cycle (defaultDesc : Bool) : List Dir := if defaultDesc then [.desc, .asc, .natural] else [.asc, .desc, .natural]

/-- The direction after a click. -/
def nextDir (sortState : Option (Column × Dir)) (col : Column) : Dir :=
  let cycle := cycle col.defaultDesc
  match sortState with
  | none => cycle.headD .natural
  | some (c, dir) => if c = col then cycle.getD ((cycle.idxOf dir + 1) % 3) .natural else cycle.headD .natural

/-! ## The page -/

/-- What the script holds, the two inputs, and what is on the screen: the rows of the table, if it is visible. -/
structure Table where
  allRows : List Row
  matched : List Row
  naturalOrder : List Row
  page : Nat
  sortState : Option (Column × Dir)
  search : Text
  six : Bool
  shown : List Row
  visible : Bool

/-- The page before any data. -/
def Table.empty : Table := ⟨[], [], [], 1, none, [], false, [], false⟩

/-- `PAGE_SIZE`. -/
def PAGE_SIZE : Nat := 1000

/-- `totalPages`. -/
def Table.totalPages (t : Table) : Nat := Paging.totalPages PAGE_SIZE t.matched.length

/-- The rows of a page. -/
def Table.slice (t : Table) (page : Nat) : List Row := Paging.slice PAGE_SIZE t.matched page

/-- `renderPage`. -/
def Table.renderPage (t : Table) : Table :=
  let page := Paging.turnTo t.totalPages t.page
  { t with page := page, shown := t.slice page }

/-- `filter`. -/
def Table.filter (t : Table) : Table :=
  let matched := t.allRows.filter (passes u t.search t.six)
  { t with matched := matched, naturalOrder := matched, page := 1 }.renderPage

/-- `sort`. -/
def Table.sort (t : Table) (col : Column) : Table :=
  let dir := nextDir t.sortState col
  let matched := if dir = .natural then t.naturalOrder else sortRows (compareRows u col (dir = .desc)) t.matched
  { t with matched := matched, sortState := some (col, dir) }.renderPage

/-- `renderData`. -/
def Table.renderData (t : Table) (ips : List Entry) : Table :=
  let t := { t with allRows := ips.map (Entry.decoded u airportCodes regionalCodes) }
  if ips ≠ [] then { t with visible := true }.filter u else { t with visible := false }

/-- What happens to the page: the text is edited, a key released, the text cleared, a family chosen, the pager or a
header clicked, and data shown. -/
inductive Event where
  | edit (text : Text)
  | keyup
  | clear
  | family (six : Bool)
  | previous
  | next
  | sort (col : Column)
  | data (ips : List Entry)

/-- The handlers of `initControls`, and `renderData`. -/
def Table.step (t : Table) : Event → Table
  | .edit text => { t with search := text }
  | .keyup => t.filter u
  | .clear => { t with search := [] }.filter u
  | .family six => { t with six := six }.filter u
  | .previous => { t with page := t.page - 1 }.renderPage
  | .next => { t with page := t.page + 1 }.renderPage
  | .sort col => t.sort u col
  | .data ips => t.renderData u airportCodes regionalCodes ips

/-- The page after the events. -/
def run (events : List Event) : Table := events.foldl (Table.step u airportCodes regionalCodes) .empty

end Functions

/-! ## What was asked for -/

/-- The inputs, what they were when rows were last selected by them, and whether a header was clicked since. -/
structure Asked where
  text : Text
  six : Bool
  query : Text
  family : Bool
  ordered : Bool

/-- Rows are selected. -/
def Asked.select (a : Asked) : Asked := { a with query := a.text, family := a.six, ordered := false }

def Asked.next (a : Asked) : Event → Asked
  | .edit text => { a with text := text }
  | .keyup => a.select
  | .clear => { a with text := [] }.select
  | .family six => { a with six := six }.select
  | .previous | .next => a
  | .sort _ => { a with ordered := true }
  | .data ips => if ips = [] then a else a.select

/-- What the events ask for. -/
def asked (events : List Event) : Asked := events.foldl Asked.next ⟨[], false, [], false, false⟩

/-- The order that the arrows show. -/
def Table.order (t : Table) : Option (Column × Bool) :=
  match t.sortState with
  | some (col, .asc) => some (col, false)
  | some (col, .desc) => some (col, true)
  | _ => none

/-- The headers that were clicked. -/
def clicks (events : List Event) : List Column :=
  events.filterMap fun
    | .sort col => some col
    | _ => none

end Gwsdb.HomeTable
