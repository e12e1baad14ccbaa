import Gwsdb.Lemmas.PoolRows
import Gwsdb.Lib.Ranked
import Gwsdb.Theorems.HomeTable
import Gwsdb.Web.HomeRequests

/-!
# The rows of the table

What a table of the home page has to show: the rows of a family, each once, in the order of a column or in that of the pool. What
`loadPool` gives is that of the moment its query is answered, and of any moment that has the same rows.
-/

namespace Gwsdb.HomePage

open Gwsdb.HomeTable (compareText inOrder inOrder_total inOrder_trans)
open Gwsdb.Store
open Gwsdb.Web (LoadPoolOptions OfFamily SearchParams familyOf board listKnownIPs_known map_filter_board mem_listKnownIPs
  nodup_listKnownIPs)
open Gwsdb.Web.Geo (Place Text)
open JsCase (CaseData)
open Keyed (Table)
open Ranked (ThenBy)

/-! ## Orders -/

/-- Rows in the order of a key, one way or the other. -/
def sortedBy {κ : Type} [LE κ] (desc : Bool) (key : IPRow → κ) (a b : IPRow) : Prop := inOrder desc (key a) (key b)

/-- A column of the pool at the IP of a row; NULL is the least value. -/
def cell {α : Type} (db : Database) (column : PoolRow → Option α) (r : IPRow) : WithBot α := (db.pool.get? r.ip).bind column

/-- The last success at the IP of a row. -/
def seen (db : Database) : IPRow → WithBot String := cell db (·.lastSeen)

/-- The cached hostnames at the IP of a row, as one text. -/
def names (db : Database) (r : IPRow) : WithBot String := db.ptrColumn r.ip

/-- A row may stand before another: in the order of the pool, the latest success first, or in that of a column, then the latest
success first; under a country the last successes go the same way as the countries. -/
def Before (db : Database) : Option (Column × Bool) → IPRow → IPRow → Prop
  | none => sortedBy true (seen db)
  | some (.ip, desc) => ThenBy (sortedBy desc IPRow.ip) (sortedBy true (seen db))
  | some (.ptr, desc) => ThenBy (sortedBy desc (names db)) (sortedBy true (seen db))
  | some (.country, desc) => ThenBy (sortedBy desc fun r => r.country.toList) (sortedBy desc (seen db))
  | some (.firstSeen, desc) => ThenBy (sortedBy desc (cell db (·.firstSeen))) (sortedBy true (seen db))
  | some (.lastSeen, desc) => sortedBy desc (seen db)
  | some (.rtt, desc) => ThenBy (sortedBy desc (cell db (·.lastRttMs))) (sortedBy true (seen db))

section Places

variable (u : CaseData) (airportCodes regionalCodes : Text → Option Place)

/-- The row of an IP, if it is of a family, as the table has it. -/
def shownRow (db : Database) (family : Option Nat) (ip : String) : Option IPRow :=
  ((db.pool.get? ip).filter (OfFamily family)).map fun row => toIPRow u airportCodes regionalCodes (db.joinRow ip row).toIPStatus

/-- The rows are those of the family in the database, each once, in the order that is asked for. -/
structure Shows (db : Database) (s : TableState) (ips : List IPRow) : Prop where
  rows : ∀ r, r ∈ ips ↔ shownRow u airportCodes regionalCodes db s.family r.ip = some r
  nodup : (ips.map IPRow.ip).Nodup
  order : ips.Pairwise (Before db s.sort)

/-! ## The query -/

variable {u airportCodes regionalCodes}

/-- SQLite's order of values, NULL first. -/
theorem nullFirst_iff {α : Type} [LinearOrder α] (x y : Option α) :
    nullFirst x y = true ↔ @LE.le (WithBot α) _ x y := by
  cases x with
  | none => exact iff_of_true rfl bot_le
  | some a =>
    cases y with
    | none => exact iff_of_false (by simp [nullFirst]) (WithBot.not_coe_le_bot a)
    | some b => exact decide_eq_true_iff.trans WithBot.coe_le_coe.symm

/-- A column in an entry of the pool. -/
def entryCell {α : Type} (column : PoolRow → Option α) (e : String × PoolRow) : WithBot α := column e.2

/-- The cached hostnames of an entry. -/
def entryNames (db : Database) (e : String × PoolRow) : WithBot String := db.ptrColumn e.1

section Key

variable {κ : Type} [LinearOrder κ] {db : Database} {c : SortColumn}

/-- `ORDER BY` a column that compares as a key. -/
theorem rowLE_iff {entryKey : String × PoolRow → κ}
    (hkey : ∀ x y, db.columnLE x y c = true ↔ entryKey x ≤ entryKey y) {opts : ListKnownIPsOptions}
    (hc : opts.sortBy.getD .lastSeen = c) (a b : String × PoolRow) :
    db.rowLE opts a b = true ↔ ThenBy (fun a b => inOrder opts.sortDesc (entryKey a) (entryKey b))
      (fun a b => inOrder true (entryCell (·.lastSeen) a) (entryCell (·.lastSeen) b)) a b := by
  have hseen : db.columnLE b a .lastSeen = true ↔ entryCell (·.lastSeen) b ≤ entryCell (·.lastSeen) a := nullFirst_iff _ _
  have hnot : ∀ x y, db.columnLE x y c = false ↔ entryKey y < entryKey x := by
    intro x y
    rw [← Bool.not_eq_true, hkey, not_le]
  unfold Database.rowLE ThenBy inOrder
  simp only [hc]
  cases opts.sortDesc with
  | false => simp [hkey, hnot, hseen, imp_iff_not_or]
  | true => simp [hkey, hnot, hseen, imp_iff_not_or]

/-- The rows of the query stand in the order of the column, then the latest success first. -/
theorem sorted_listKnownIPs (opts : LoadPoolOptions) (hc : opts.known.sortBy.getD .lastSeen = c) (entryKey : String × PoolRow → κ)
    (hkey : ∀ x y, db.columnLE x y c = true ↔ entryKey x ≤ entryKey y) (key : IPRow → κ)
    (hrow : ∀ ip row, db.pool.get? ip = some row →
      key (toIPRow u airportCodes regionalCodes (db.joinRow ip row).toIPStatus) = entryKey (ip, row)) :
    ((db.listKnownIPs opts.known).map (toIPRow u airportCodes regionalCodes)).Pairwise
      (ThenBy (sortedBy opts.known.sortDesc key) (sortedBy true (seen db))) := by
  have htotal : ∀ a b, db.rowLE opts.known a b = true ∨ db.rowLE opts.known b a = true := by
    intro a b
    rw [rowLE_iff hkey hc, rowLE_iff hkey hc]
    exact ThenBy.total (fun a b => inOrder_total _ _ _) (fun a b => inOrder_total _ _ _) a b
  have htrans : IsTrans (String × PoolRow) fun a b => db.rowLE opts.known a b = true := by
    refine ⟨fun a b c hab hbc => ?_⟩
    rw [rowLE_iff hkey hc] at hab hbc ⊢
    refine ThenBy.trans ?_ ?_ hab hbc
    · exact fun _ _ _ h h' => inOrder_trans h h'
    · exact fun _ _ _ h h' => inOrder_trans h h'
  rw [listKnownIPs_known, List.map_map, List.pairwise_map]
  refine (Ranked.pairwise_insertionSort (List.pairwise_of_forall htotal)).imp_of_mem fun {a b} ha hb hle => ?_
  have hget : ∀ e ∈ (db.pool.entries.filter fun e => OfFamily opts.family e.2).insertionSort
      fun a b => db.rowLE opts.known a b = true, db.pool.get? e.1 = some e.2 := by
    intro e he
    exact (Table.mem_entries_iff _ _ _).1 (List.mem_filter.1 ((List.mem_insertionSort _).1 he)).1
  have hseen : ∀ e : String × PoolRow, db.pool.get? e.1 = some e.2 →
      seen db (toIPRow u airportCodes regionalCodes (db.joinRow e.1 e.2).toIPStatus) = entryCell (·.lastSeen) e := by
    intro e he
    show (db.pool.get? e.1).bind _ = e.2.lastSeen
    rw [he]
    rfl
  have horder := (rowLE_iff hkey hc a b).1 hle
  unfold ThenBy sortedBy
  simp only [Function.comp_apply]
  rw [hrow a.1 a.2 (hget a ha), hrow b.1 b.2 (hget b hb), hseen a (hget a ha), hseen b (hget b hb)]
  exact horder

end Key

/-! ## `loadPool` -/

/-- A column at the row of an entry. -/
theorem cell_toIPRow {α : Type} {db : Database} (column : PoolRow → Option α) {ip : String} {row : PoolRow}
    (h : db.pool.get? ip = some row) :
    cell db column (toIPRow u airportCodes regionalCodes (db.joinRow ip row).toIPStatus) = column row := by
  show (db.pool.get? ip).bind column = column row
  rw [h]
  rfl

/-- The comparison of countries. -/
theorem countryLE_iff (desc : Bool) (a b : IPRow) :
    countryLE desc a b = true ↔ sortedBy desc (fun r => r.country.toList) a b := by
  unfold countryLE sortedBy compareText inOrder
  rcases lt_trichotomy a.country.toList b.country.toList with h | h | h
  · cases desc <;> simp [h, h.le]
  · cases desc <;> simp [h]
  · cases desc <;> simp [h, h.le, h.not_gt]

/-- `loadPool` keeps the rows of the query. -/
theorem sortCountries_perm (opts : LoadPoolOptions) (ips : List IPRow) : (sortCountries opts ips).Perm ips := by
  unfold sortCountries
  split
  · exact List.mergeSort_perm _ _
  · exact List.Perm.refl _

/-- The rows of the query are those of the family. -/
theorem mem_rows_iff (db : Database) (opts : LoadPoolOptions) (r : IPRow) :
    r ∈ (db.listKnownIPs opts.known).map (toIPRow u airportCodes regionalCodes) ↔
      shownRow u airportCodes regionalCodes db opts.family r.ip = some r := by
  rw [List.mem_map]
  unfold shownRow
  constructor
  · rintro ⟨st, hst, rfl⟩
    obtain ⟨row, hget, hof, heq⟩ := mem_listKnownIPs.mp hst
    refine Option.map_eq_some_iff.mpr ⟨row, Option.filter_eq_some_iff.mpr ⟨hget, hof⟩, ?_⟩
    exact congrArg (toIPRow u airportCodes regionalCodes) heq
  · intro h
    obtain ⟨row, hrow, heq⟩ := Option.map_eq_some_iff.mp h
    obtain ⟨hget, hof⟩ := Option.filter_eq_some_iff.mp hrow
    exact ⟨(db.joinRow r.ip row).toIPStatus, mem_listKnownIPs.mpr ⟨row, hget, hof, rfl⟩, heq⟩

/-- The rows that `loadPool` lists by the last success. -/
theorem sorted_lastSeen (db : Database) (opts : LoadPoolOptions) (hc : opts.known.sortBy.getD .lastSeen = .lastSeen) :
    ((db.listKnownIPs opts.known).map (toIPRow u airportCodes regionalCodes)).Pairwise
        (sortedBy opts.known.sortDesc (seen db)) := by
  refine (sorted_listKnownIPs opts hc (entryCell (·.lastSeen)) (fun x y => ?_) (seen db) fun _ _ h => ?_).imp And.left
  · exact nullFirst_iff x.2.lastSeen y.2.lastSeen
  · exact cell_toIPRow _ h

/-- The rows of a pool stand in the order of the column that is asked for. -/
theorem before_loaded (db : Database) (col : Column) (desc : Bool) (family : Option Nat) :
    (sortCountries ⟨some col.dbKey, some desc, family⟩
      ((db.listKnownIPs (LoadPoolOptions.mk (some col.dbKey) (some desc) family).known).map
        (toIPRow u airportCodes regionalCodes))).Pairwise (Before db (some (col, desc))) := by
  cases col with
  | ip =>
    refine sorted_listKnownIPs ⟨some (.column .ip), some desc, family⟩ rfl Prod.fst (fun x y => ?_) IPRow.ip fun _ _ _ => rfl
    exact decide_eq_true_iff
  | ptr =>
    refine sorted_listKnownIPs ⟨some (.column .ptr), some desc, family⟩ rfl (entryNames db)
      (fun x y => ?_) (names db) fun _ _ _ => rfl
    exact nullFirst_iff (db.ptrColumn x.1) (db.ptrColumn y.1)
  | country =>
    have hknown : ((db.listKnownIPs (LoadPoolOptions.mk (some .country) (some desc) family).known).map
        (toIPRow u airportCodes regionalCodes)).Pairwise (sortedBy desc (seen db)) :=
      sorted_lastSeen db ⟨some .country, some desc, family⟩ rfl
    refine (Ranked.pairwise_mergeSort_thenBy ?_ ?_ hknown).imp fun {a b} h => ?_
    · intro a b c hab hbc
      rw [countryLE_iff] at hab hbc ⊢
      exact inOrder_trans hab hbc
    · intro a b
      rw [Bool.or_eq_true]
      exact (inOrder_total _ _ _).imp (countryLE_iff _ a b).2 (countryLE_iff _ b a).2
    · exact ⟨(countryLE_iff desc a b).1 h.1, fun hba => h.2 ((countryLE_iff desc b a).2 hba)⟩
  | firstSeen =>
    refine sorted_listKnownIPs ⟨some (.column .firstSeen), some desc, family⟩ rfl (entryCell (·.firstSeen)) (fun x y => ?_)
      (cell db (·.firstSeen)) fun _ _ h => cell_toIPRow _ h
    exact nullFirst_iff x.2.firstSeen y.2.firstSeen
  | lastSeen => exact sorted_lastSeen db ⟨some (.column .lastSeen), some desc, family⟩ rfl
  | rtt =>
    refine sorted_listKnownIPs ⟨some (.column .rtt), some desc, family⟩ rfl (entryCell (·.lastRttMs)) (fun x y => ?_)
      (cell db (·.lastRttMs)) fun _ _ h => cell_toIPRow _ h
    exact nullFirst_iff x.2.lastRttMs y.2.lastRttMs

/-- What `loadPool` gives for a request is what the table of the request has to show of the database. -/
theorem shows_poolOf (db : Database) (params : SearchParams) (stats : Web.Stats) :
    Shows u airportCodes regionalCodes db (stateOf params)
      (poolOf u airportCodes regionalCodes (loadOptions params) (db.listKnownIPs (loadOptions params).known) stats).ips where
  rows := by
    intro r
    exact (sortCountries_perm _ _).mem_iff.trans (mem_rows_iff db (loadOptions params) r)
  nodup := by
    have hperm := (sortCountries_perm (loadOptions params)
      ((db.listKnownIPs (loadOptions params).known).map (toIPRow u airportCodes regionalCodes))).map IPRow.ip
    refine hperm.nodup_iff.2 ?_
    rw [List.map_map]
    exact nodup_listKnownIPs db (loadOptions params)
  order := by
    unfold stateOf poolOf loadOptions
    cases hsort : activeSort params with
    | none =>
      have hdesc : activeDesc params = true := by simp [activeDesc, hsort]
      rw [hdesc]
      exact sorted_lastSeen db ⟨none, some true, familyOf params⟩ rfl
    | some col => exact before_loaded db col (activeDesc params) (familyOf params)

/-! ## Databases with the same rows -/

/-- A row is shown from the board. -/
theorem shownRow_eq_board (db : Database) (family : Option Nat) (ip : String) :
    shownRow u airportCodes regionalCodes db family ip = ((board db ip).1.filter (OfFamily family)).map fun row =>
      toIPRow u airportCodes regionalCodes (JoinedRow.mk ip row ((board db ip).2.getD "")).toIPStatus :=
  map_filter_board db family ip fun _ => rfl

/-- A column that is no count of checks is known from the board. -/
theorem cell_eq_board {α : Type} (db : Database) {column : PoolRow → Option α}
    (hcolumn : ∀ row, column { row with historyCount := 0 } = column row) (r : IPRow) :
    cell db column r = (board db r.ip).1.bind column := by
  unfold cell board
  cases db.pool.get? r.ip with
  | none => rfl
  | some row => exact (hcolumn row).symm

/-- What a table has to show is known from the board. -/
theorem Shows.of_board {db db' : Database} {s : TableState} {ips : List IPRow} (h : Shows u airportCodes regionalCodes db s ips)
    (hboard : board db' = board db) : Shows u airportCodes regionalCodes db' s ips := by
  have hcell : ∀ {α : Type} {column : PoolRow → Option α}, (∀ row, column { row with historyCount := 0 } = column row) →
      cell db' column = cell db column := by
    intro α column hcolumn
    funext r
    rw [cell_eq_board db' hcolumn, cell_eq_board db hcolumn, hboard]
  have hseen : seen db' = seen db := hcell fun _ => rfl
  have hfirst : cell db' (·.firstSeen) = cell db (·.firstSeen) := hcell fun _ => rfl
  have hrtt : cell db' (·.lastRttMs) = cell db (·.lastRttMs) := hcell fun _ => rfl
  have hnames : names db' = names db := funext fun r => congrArg Prod.snd (congrFun hboard r.ip)
  refine ⟨fun r => ?_, h.nodup, ?_⟩
  · rw [shownRow_eq_board, hboard, ← shownRow_eq_board]
    exact h.rows r
  · have hbefore : Before db' s.sort = Before db s.sort := by
      unfold Before
      rw [hseen, hnames, hfirst, hrtt]
    rw [hbefore]
    exact h.order

end Places

end Gwsdb.HomePage
