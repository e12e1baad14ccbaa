import Gwsdb.Lib.Paging
import Gwsdb.Web.History

/-!
# The pages of the history

`render` of `public/static/query.js` and what calls it: a snapshot found in the cache, a newer one of `sync`, and the two buttons,
which are there only while the table is.
-/

namespace Gwsdb.HistoryPager

open Gwsdb.Web (HistoryCheck)

/-- `PAGE_SIZE`. -/
def PAGE_SIZE : Nat := 100

/-- The checks and the page that the script holds, the rows of the table, and whether it is visible. -/
structure Section where
  checks : List HistoryCheck
  page : Nat
  shown : List HistoryCheck
  visible : Bool

/-- The section before any checks. -/
def Section.empty : Section := ⟨[], 1, [], false⟩

/-- `totalPages`. -/
def Section.totalPages (t : Section) : Nat := Paging.totalPages PAGE_SIZE t.checks.length

/-- The rows of a page. -/
def Section.slice (t : Section) (page : Nat) : List HistoryCheck := Paging.slice PAGE_SIZE t.checks page

/-- `render`. -/
def Section.render (t : Section) : Section :=
  if t.checks = [] then { t with visible := false }
  else
    let page := Paging.turnTo t.totalPages t.page
    { t with page := page, shown := t.slice page, visible := true }

/-- What happens to the section: a snapshot is found in the cache, `sync` has a newer one, a button is clicked. -/
inductive Event where
  | cached (checks : List HistoryCheck)
  | fresh (checks : List HistoryCheck)
  | previous
  | next

def Section.step (t : Section) : Event → Section
  | .cached checks => { t with checks := checks }.render
  | .fresh checks => { t with checks := checks, page := 1 }.render
  | .previous => if t.visible then { t with page := t.page - 1 }.render else t
  | .next => if t.visible then { t with page := t.page + 1 }.render else t

/-- The section after the events. -/
def run (events : List Event) : Section := events.foldl Section.step .empty

/-- The checks that were given last. -/
def given (checks : List HistoryCheck) : Event → List HistoryCheck
  | .cached checks => checks
  | .fresh checks => checks
  | .previous | .next => checks

end Gwsdb.HistoryPager
