import Gwsdb.Theorems.Pages
import Gwsdb.Web.HomeTable
import Mathlib.Data.String.Basic

/-!
# The home page shows what was asked for

Whatever a reader clicks and types, in any order, and whatever data come in between: while the table is visible, its pages
together are the rows of the data that the last selection asked for, each once; they stand in the order of the pool, or in the one
that the arrows show; and the arrows move with the clicks as the links of the page without scripts do (`table_shows_asked`).
-/

namespace Gwsdb.HomeTable

open Gwsdb.HomePage (Column clickColumn)
open Gwsdb.Web.Geo (Place Text)
open JsCase (CaseData)

/-! ## The order of a column -/

/-- In one direction or the other. -/
def inOrder {κ : Type} [LE κ] (desc : Bool) (x y : κ) : Prop := if desc then y ≤ x else x ≤ y

section Order

variable {κ : Type} [LinearOrder κ]

/-- Of two keys one comes before the other. -/
theorem inOrder_total (desc : Bool) (x y : κ) : inOrder desc x y ∨ inOrder desc y x := by
  cases desc with
  | false => exact le_total x y
  | true => exact le_total y x

/-- The order of the keys is transitive. -/
theorem inOrder_trans {desc : Bool} {x y z : κ} (hxy : inOrder desc x y) (hyz : inOrder desc y z) : inOrder desc x z := by
  cases desc with
  | false => exact le_trans hxy hyz
  | true => exact le_trans hyz hxy

end Order

section

variable (u : CaseData) (airportCodes regionalCodes : Text → Option Place)

/-- A row may stand before another when a column is sorted by. -/
def Row.Before (col : Column) (desc : Bool) (a b : Row) : Prop :=
  match col with
  | .rtt => inOrder desc a.lastRttMs b.lastRttMs
  | .ip => inOrder desc a.ip b.ip
  | col => inOrder desc (u.toLowerCase (a.text col)) (u.toLowerCase (b.text col))

/-- Comparing texts in either order gives the order of the keys. -/
theorem compareText_iff (desc : Bool) (av bv : Text) :
    (compareText desc av bv ≤ 0 ∨ 0 ≤ compareText desc bv av) ↔ inOrder desc av bv := by
  unfold compareText inOrder
  rcases lt_trichotomy av bv with h | h | h
  · cases desc <;> simp [h, h.not_gt, h.le]
  · cases desc <;> simp [h]
  · cases desc <;> simp [h, h.not_gt, h.le]

/-- The comparison lets a row stand before another exactly when it may. -/
theorem compareRows_iff (col : Column) (desc : Bool) (a b : Row) :
    (compareRows u col desc a b ≤ 0 ∨ 0 ≤ compareRows u col desc b a) ↔ Row.Before u col desc a b := by
  cases col with
  | ip =>
    unfold compareRows Row.Before inOrder
    rcases lt_trichotomy a.ip b.ip with h | h | h
    · cases desc <;> simp [h, h.not_gt, h.le]
    · cases desc <;> simp [h]
    · cases desc <;> simp [h, h.not_gt, h.le]
  | rtt =>
    unfold compareRows Row.Before inOrder
    cases desc with
    | false => simp only [Bool.false_eq_true, if_false]; omega
    | true => simp only [if_true]; omega
  | ptr => exact compareText_iff desc _ _
  | country => exact compareText_iff desc _ _
  | firstSeen => exact compareText_iff desc _ _
  | lastSeen => exact compareText_iff desc _ _

/-- Of two rows one comes before the other. -/
theorem before_total (col : Column) (desc : Bool) (a b : Row) : Row.Before u col desc a b ∨ Row.Before u col desc b a := by
  cases col with
  | ip | rtt | ptr | country | firstSeen | lastSeen => exact inOrder_total desc _ _

/-- The order of the rows is transitive. -/
theorem before_trans {col : Column} {desc : Bool} {a b c : Row} (hab : Row.Before u col desc a b)
    (hbc : Row.Before u col desc b c) :
    Row.Before u col desc a c := by
  cases col with
  | ip | rtt | ptr | country | firstSeen | lastSeen => exact inOrder_trans hab hbc

/-- The rows are sorted. -/
theorem sorted_sortRows (col : Column) (desc : Bool) (rows : List Row) :
    (sortRows (compareRows u col desc) rows).Pairwise (Row.Before u col desc) := by
  have hiff : ∀ a b : Row,
      (decide (compareRows u col desc a b ≤ 0) || decide (0 ≤ compareRows u col desc b a)) = true ↔
          Row.Before u col desc a b := by
    intro a b
    rw [← compareRows_iff, Bool.or_eq_true, decide_eq_true_eq, decide_eq_true_eq]
  refine List.Pairwise.imp (fun h => (hiff _ _).1 h) (List.pairwise_mergeSort ?_ ?_ rows)
  · exact fun a b c hab hbc => (hiff a c).2 (before_trans u ((hiff a b).1 hab) ((hiff b c).1 hbc))
  · intro a b
    rw [Bool.or_eq_true, hiff, hiff]
    exact before_total u col desc a b

/-! ## What is selected -/

/-- The selected rows of the data, as the pool has them. -/
def Asked.rows (a : Asked) (allRows : List Row) : List Row := allRows.filter (passes u a.query a.family)

/-- Rows in the order that the arrows show, or in that of the pool where no header was clicked since they were selected. -/
def InOrder (ordered : Bool) (order : Option (Column × Bool)) (selected rows : List Row) : Prop :=
  match ordered, order with
  | true, some (col, desc) => rows.Pairwise (Row.Before u col desc)
  | _, _ => rows = selected

/-- What the script holds when `a` was asked for. -/
structure Table.Holds (t : Table) (a : Asked) : Prop where
  search : t.search = a.text
  six : t.six = a.six
  natural : ∃ rows, (t.visible = true → rows = t.allRows) ∧ t.naturalOrder = a.rows u rows
  perm : t.matched.Perm t.naturalOrder
  order : InOrder u a.ordered t.order t.naturalOrder t.matched
  page : Paging.OnPage PAGE_SIZE t.matched t.page t.shown

variable {u}

/-- Another page of the same rows. -/
theorem Table.Holds.turn {t : Table} {a : Asked} (h : t.Holds u a) (page : Nat) :
    ({ t with page := page }.renderPage).Holds u a where
  search := h.search
  six := h.six
  natural := h.natural
  perm := h.perm
  order := h.order
  page := Paging.onPage_turnTo _ _ _

/-- The inputs are edited. -/
theorem Table.Holds.edit {t : Table} {a : Asked} (h : t.Holds u a) (text : Text) :
    ({ t with search := text }).Holds u { a with text := text } where
  search := rfl
  six := h.six
  natural := h.natural
  perm := h.perm
  order := h.order
  page := h.page

/-- `filter` selects the rows anew, by what the inputs are. -/
theorem holds_filter {t : Table} {a : Asked} (hsearch : t.search = a.text) (hsix : t.six = a.six) :
    (t.filter u).Holds u a.select where
  search := hsearch
  six := hsix
  natural := ⟨t.allRows, fun _ => rfl, by rw [Asked.rows, Asked.select, ← hsearch, ← hsix]; rfl⟩
  perm := List.Perm.refl _
  order := rfl
  page := Paging.onPage_turnTo _ _ _

/-- `sort` puts the same rows in the order of the arrows. -/
theorem Table.Holds.sort {t : Table} {a : Asked} (h : t.Holds u a) (col : Column) :
    (t.sort u col).Holds u { a with ordered := true } where
  search := h.search
  six := h.six
  natural := h.natural
  perm := by
    show (ite _ _ _ : List Row).Perm t.naturalOrder
    split
    · exact List.Perm.refl _
    · exact (List.mergeSort_perm _ _).trans h.perm
  order := by
    unfold Table.sort
    cases nextDir t.sortState col with
    | asc => exact sorted_sortRows u col false t.matched
    | desc => exact sorted_sortRows u col true t.matched
    | natural => rfl
  page := Paging.onPage_turnTo _ _ _

variable {airportCodes regionalCodes}

/-- Every event keeps it, with what it asks for. -/
theorem Table.Holds.step {t : Table} {a : Asked} (h : t.Holds u a) (e : Event) :
    (t.step u airportCodes regionalCodes e).Holds u (a.next e) := by
  cases e with
  | edit text => exact h.edit text
  | keyup => exact holds_filter h.search h.six
  | clear => exact holds_filter rfl h.six
  | family six => exact holds_filter h.search rfl
  | previous => exact h.turn _
  | next => exact h.turn _
  | sort col => exact h.sort col
  | data ips =>
    show (if ips ≠ [] then _ else _ : Table).Holds u (if ips = [] then a else a.select)
    by_cases hnil : ips = []
    · rw [if_pos hnil, if_neg (not_not.2 hnil)]
      obtain ⟨rows, -, hnatural⟩ := h.natural
      exact ⟨h.search, h.six, ⟨rows, nofun, hnatural⟩, h.perm, h.order, h.page⟩
    · rw [if_neg hnil, if_pos hnil]
      exact holds_filter h.search h.six

/-- The empty table shows what nothing has been asked of. -/
theorem holds_empty : Table.empty.Holds u ⟨[], false, [], false, false⟩ where
  search := rfl
  six := rfl
  natural := ⟨[], fun _ => rfl, rfl⟩
  perm := List.Perm.refl _
  order := rfl
  page := ⟨le_refl 1, Paging.totalPages_pos PAGE_SIZE 0, rfl⟩

/-- After every event the table shows what has been asked for. -/
theorem holds_foldl {t : Table} {a : Asked} (h : t.Holds u a) (events : List Event) :
    (events.foldl (Table.step u airportCodes regionalCodes) t).Holds u (events.foldl Asked.next a) := by
  induction events generalizing t a with
  | nil => exact h
  | cons e events ih => exact ih (h.step e)

/-! ## The arrows -/

/-- The header that is clicked again goes on in its cycle. -/
theorem nextDir_again (col : Column) (dir : Dir) : nextDir (some (col, dir)) col =
    match col.defaultDesc, dir with
    | false, .asc => .desc
    | false, .desc => .natural
    | false, .natural => .asc
    | true, .desc => .asc
    | true, .asc => .natural
    | true, .natural => .desc := by
  unfold nextDir
  simp only [if_true]
  cases col.defaultDesc <;> cases dir <;> rfl

/-- Another header begins with its default direction. -/
theorem nextDir_first {sortState : Option (Column × Dir)} {col : Column} (h : ∀ dir, sortState ≠ some (col, dir)) :
    nextDir sortState col = if col.defaultDesc then .desc else .asc := by
  have hhead : (cycle col.defaultDesc).headD .natural = if col.defaultDesc then .desc else .asc := by
    cases col.defaultDesc <;> rfl
  cases sortState with
  | none => exact hhead
  | some s =>
    obtain ⟨c, dir⟩ := s
    have hc : c ≠ col := fun hc => h dir (by rw [hc])
    rw [← hhead]
    exact if_neg hc

/-- A click moves the arrows as it moves the links of the page without scripts. -/
theorem order_sort (t : Table) (col : Column) : (t.sort u col).order = clickColumn t.order col := by
  have horder : (t.sort u col).order = match nextDir t.sortState col with
      | .asc => some (col, false)
      | .desc => some (col, true)
      | .natural => none := by
    unfold Table.sort Table.order Table.renderPage
    cases nextDir t.sortState col <;> rfl
  rw [horder]
  by_cases hagain : ∃ dir, t.sortState = some (col, dir)
  · obtain ⟨dir, hstate⟩ := hagain
    rw [Table.order, hstate, nextDir_again]
    cases hdesc : col.defaultDesc <;> cases dir <;> simp [clickColumn, hdesc]
  · have hne : ∀ dir, t.sortState ≠ some (col, dir) := fun dir hstate => hagain ⟨dir, hstate⟩
    have hother : ∀ desc, t.order ≠ some (col, desc) := by
      intro desc heq
      unfold Table.order at heq
      split at heq
      · rename_i c hstate
        cases heq
        exact hne _ hstate
      · rename_i c hstate
        cases heq
        exact hne _ hstate
      · cases heq
    rw [nextDir_first hne, clickColumn, if_neg (hother _), if_neg (hother _)]
    cases col.defaultDesc <;> rfl

/-- Rendering keeps the order. -/
theorem order_renderData (t : Table) (ips : List Entry) : (t.renderData u airportCodes regionalCodes ips).order = t.order := by
  unfold Table.renderData
  split
  · rfl
  · rfl

/-- Only clicks on headers move them. -/
theorem order_foldl (t : Table) (events : List Event) :
    (events.foldl (Table.step u airportCodes regionalCodes) t).order = (clicks events).foldl clickColumn t.order := by
  induction events generalizing t with
  | nil => rfl
  | cons e events ih =>
    rw [List.foldl_cons, ih]
    cases e with
    | sort col =>
      show _ = (clicks events).foldl clickColumn (clickColumn t.order col)
      rw [← order_sort]
      rfl
    | data ips =>
      show (clicks events).foldl clickColumn (t.renderData u airportCodes regionalCodes ips).order = _
      rw [order_renderData]
      rfl
    | edit text | keyup | clear | family six | previous | next => rfl

end

variable (u : CaseData) (airportCodes regionalCodes : Text → Option Place)

/-- While the table is visible: it shows a page of its rows that there is; the pages together are the rows of the data that were
asked for when they were last selected, each once, in the order of the pool or, where a header was clicked since, in the one that
the arrows show; and the arrows have moved with the clicks as the links of the page without scripts do. -/
theorem table_shows_asked (events : List Event) (h : (run u airportCodes regionalCodes events).visible = true) :
    let t := run u airportCodes regionalCodes events
    let a := asked events
    (1 ≤ t.page ∧ t.page ≤ t.totalPages ∧ t.shown = t.slice t.page) ∧
    (List.range t.totalPages).flatMap (fun i => t.slice (i + 1)) = t.matched ∧
    t.matched.Perm (a.rows u t.allRows) ∧ InOrder u a.ordered t.order (a.rows u t.allRows) t.matched ∧
    t.order = (clicks events).foldl clickColumn none := by
  intro t a
  have hholds : t.Holds u a := holds_foldl holds_empty events
  obtain ⟨rows, hrows, hnatural⟩ := hholds.natural
  have hselected : t.naturalOrder = a.rows u t.allRows := by rw [hnatural, hrows h]
  refine ⟨⟨hholds.page.pos, hholds.page.le, hholds.page.shown_eq⟩,
    Paging.slices_eq (by decide) t.matched, ?_, ?_, order_foldl _ _⟩
  · rw [← hselected]
    exact hholds.perm
  · rw [← hselected]
    exact hholds.order

def sampleEntry (ip : String) (rtt : Int) : Entry := ⟨⟨ip, 1, [], "Reachable", "", "", rtt⟩, none⟩

/-- Two rows, with a click past the last page and one on a header. -/
def sampleEvents : List Event := [.data [sampleEntry "8.8.8.8" 30, sampleEntry "8.8.4.4" 40], .next, .sort .rtt]

/-- A table after some clicks. -/
theorem table_shows_asked_two :
    let t := run JsCase.asciiData (fun _ => none) (fun _ => none) sampleEvents
    t.visible = true ∧ t.page ≤ t.totalPages ∧ t.matched.Perm ((asked sampleEvents).rows JsCase.asciiData t.allRows) ∧
      t.matched.Pairwise (Row.Before JsCase.asciiData .rtt true) := by
  intro t
  have hvisible : t.visible = true := rfl
  obtain ⟨⟨-, hpage, -⟩, -, hperm, horder, -⟩ :=
    table_shows_asked JsCase.asciiData (fun _ => none) (fun _ => none) sampleEvents hvisible
  exact ⟨hvisible, hpage, hperm, horder⟩

end Gwsdb.HomeTable
