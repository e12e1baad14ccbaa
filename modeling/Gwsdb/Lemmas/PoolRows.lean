import Gwsdb.Lib.Signal
import Gwsdb.Theorems.DeltaExact
import Gwsdb.Web.PoolEndpoint

/-!
# The rows of a family

What the whole pool shows of a family, and the version as a signal of it: the rows of a family change only under a new version.
-/

namespace Gwsdb.Web

open Gwsdb.Store
open Interleave (Run)
open Keyed (Table)

/-- A row of the pool is of a family, every row of none. -/
def OfFamily (family : Option Nat) (row : PoolRow) : Bool := (family != some 4 || !row.isIPv6) && (family != some 6 || row.isIPv6)

/-- The row of an IP, if it is of a family, as the endpoint shows it. -/
def shown (db : Database) (family : Option Nat) (ip : String) : Option IPRow :=
  ((db.pool.get? ip).filter (OfFamily family)).map fun row => (db.joinRow ip row).toIPRow

/-- The rows of a list are those a database shows of a family, each once. -/
structure Lists (db : Database) (family : Option Nat) (ips : List IPRow) : Prop where
  rows : ∀ r, r ∈ ips ↔ shown db family r.ip = some r
  nodup : (ips.map IPRow.ip).Nodup

/-! ## One database -/

/-- Both ways to a row of the endpoint agree. -/
theorem toIPRow_toIPStatus (j : JoinedRow) : toIPRow j.toIPStatus = j.toIPRow := by
  obtain ⟨ip, row, ptr⟩ := j
  have hstatus : statusOf (JoinedRow.toIPStatus ⟨ip, row, ptr⟩) = statusFor row := by
    unfold statusOf JoinedRow.toIPStatus statusFor
    cases row.lastCheckOk with
    | none => rfl
    | some ok => cases ok <;> rfl
  unfold toIPRow JoinedRow.toIPRow
  rw [hstatus]
  rfl

/-- `loadPool` asks for the rows of a family. -/
theorem listed_known (db : Database) (opts : LoadPoolOptions) (e : String × PoolRow) :
    db.listed opts.known e = OfFamily opts.family e.2 := by
  simp [Database.listed, LoadPoolOptions.known, OfFamily]

/-- And gets them sorted. -/
theorem listKnownIPs_known (db : Database) (opts : LoadPoolOptions) :
    db.listKnownIPs opts.known =
      ((db.pool.entries.filter fun e => OfFamily opts.family e.2).insertionSort fun a b => db.rowLE opts.known a b).map
        fun e => (db.joinRow e.1 e.2).toIPStatus := by
  have hfilter : db.pool.entries.filter (db.listed opts.known) = db.pool.entries.filter fun e => OfFamily opts.family e.2 :=
    List.filter_congr fun e _ => listed_known db opts e
  rw [← hfilter]
  rfl

/-- The IPs a query lists are different, and a query without a limit lists every row that meets its conditions. -/
theorem listKnownIPs_perm (db : Database) (opts : LoadPoolOptions) :
    (db.listKnownIPs opts.known).Perm
      ((db.pool.entries.filter fun e => OfFamily opts.family e.2).map fun e => (db.joinRow e.1 e.2).toIPStatus) := by
  rw [listKnownIPs_known]
  exact (List.perm_insertionSort (fun a b => db.rowLE opts.known a b = true) _).map _

/-- The rows that are listed are those of the family. -/
theorem mem_listKnownIPs {db : Database} {opts : LoadPoolOptions} {st : IPStatus} :
    st ∈ db.listKnownIPs opts.known ↔
      ∃ row, db.pool.get? st.ip = some row ∧ OfFamily opts.family row = true ∧ (db.joinRow st.ip row).toIPStatus = st := by
  rw [(listKnownIPs_perm db opts).mem_iff, List.mem_map]
  constructor
  · rintro ⟨⟨ip, row⟩, he, rfl⟩
    obtain ⟨hmem, hof⟩ := List.mem_filter.mp he
    exact ⟨row, (Table.mem_entries_iff _ _ _).mp hmem, hof, rfl⟩
  · rintro ⟨row, hget, hof, heq⟩
    exact ⟨(st.ip, row), List.mem_filter.mpr ⟨(Table.mem_entries_iff _ _ _).mpr hget, hof⟩, heq⟩

/-- Each row is listed once. -/
theorem nodup_listKnownIPs (db : Database) (opts : LoadPoolOptions) : ((db.listKnownIPs opts.known).map IPStatus.ip).Nodup := by
  rw [((listKnownIPs_perm db opts).map IPStatus.ip).nodup_iff, List.map_map]
  exact (db.pool.keys_nodup).sublist (List.filter_sublist.map Prod.fst)

/-- The endpoint lists what the database shows. -/
theorem lists_listKnownIPs (db : Database) (family : Option Nat) :
    Lists db family ((db.listKnownIPs (poolOptions family)).map toIPRow) where
  rows := by
    intro r
    rw [List.mem_map]
    unfold shown
    constructor
    · rintro ⟨st, hst, rfl⟩
      obtain ⟨row, hget, hof, heq⟩ := mem_listKnownIPs.mp hst
      refine Option.map_eq_some_iff.mpr ⟨row, Option.filter_eq_some_iff.mpr ⟨hget, hof⟩, ?_⟩
      rw [← toIPRow_toIPStatus]
      exact congrArg toIPRow heq
    · intro h
      obtain ⟨row, hrow, heq⟩ := Option.map_eq_some_iff.mp h
      obtain ⟨hget, hof⟩ := Option.filter_eq_some_iff.mp hrow
      exact ⟨(db.joinRow r.ip row).toIPStatus, mem_listKnownIPs.mpr ⟨row, hget, hof, rfl⟩, by rw [toIPRow_toIPStatus, heq]⟩
  nodup := by
    rw [List.map_map]
    exact nodup_listKnownIPs db ⟨none, none, family⟩

/-- Without a family, all rows are shown. -/
theorem shown_none (db : Database) : shown db none = db.joined := by
  funext ip
  unfold shown Database.joined
  cases db.pool.get? ip with
  | none => rfl
  | some row => rfl

/-! ## The version as a signal -/

/-- All that is shown of an IP: its row of the pool, without the count of its checks, and its cached hostnames. -/
def board (db : Database) (ip : String) : Option PoolRow × Option String :=
  ((db.pool.get? ip).map fun row => { row with historyCount := 0 }, db.ptrColumn ip)

/-- What does not read the count of checks is known of the row of a family from the board. -/
theorem map_filter_board {α : Type} (db : Database) (family : Option Nat) (ip : String) {f : PoolRow → α}
    (hf : ∀ row, f { row with historyCount := 0 } = f row) :
    ((db.pool.get? ip).filter (OfFamily family)).map f = ((board db ip).1.filter (OfFamily family)).map f := by
  unfold board
  cases db.pool.get? ip with
  | none => rfl
  | some row =>
    have hfamily : OfFamily family { row with historyCount := 0 } = OfFamily family row := rfl
    rw [Option.map_some, Option.filter_some, Option.filter_some, hfamily]
    split
    · exact congrArg some (hf row).symm
    · rfl

/-- A family is shown from the board. -/
theorem shown_eq_board (db : Database) (family : Option Nat) (ip : String) :
    shown db family ip =
      ((board db ip).1.filter (OfFamily family)).map fun row => (JoinedRow.mk ip row ((board db ip).2.getD "")).toIPRow :=
  map_filter_board db family ip fun _ => rfl

/-- A batch of one of the forms takes a new version or leaves the board alone. -/
theorem after_board {stmts : List Stmt} (h : WriteBatch stmts) {db : Database} (hv : (db.after stmts).version = db.version) :
    board (db.after stmts) = board db := by
  cases h with
  | inserts h =>
    obtain ⟨checks, heq⟩ := Database.after_inserts h db
    rw [heq]
    rfl
  | pool h =>
    have hstamps := (Database.after_stamps h (db.exec .bumpPoolRevision).2).version
    exact absurd (hv.symm.trans hstamps) (Nat.ne_of_lt (Nat.lt_succ_self _))
  | ptr pairs =>
    have hstamps := (Database.ptrPairs_stamps pairs (db.exec .bumpPoolRevision).2).version
    exact absurd (hv.symm.trans hstamps) (Nat.ne_of_lt (Nat.lt_succ_self _))
  | prune ips =>
    funext ip
    refine Prod.ext ?_ rfl
    show ((Table.mapRows _ _).get? ip).map _ = _
    rw [Table.get?_mapRows, Option.map_map]
    refine congrFun (congrArg Option.map (funext fun row => ?_)) _
    simp only [Function.comp_apply]
    split <;> rfl
  | evict ips => exact absurd hv.symm (Nat.ne_of_lt (Nat.lt_succ_self _))

/-- A call that takes no new version leaves the board. -/
theorem serve_board {e : Store.Call} (h : Allowed e) (s : Store.Site) (hv : (serve e s).2.db.version = s.db.version) :
    board (serve e s).2.db = board s.db := by
  cases e with
  | batch stmts =>
    have hdb : (serve (.batch stmts) s).2.db = s.db.after stmts := Database.batch_snd s.db stmts
    rw [hdb] at hv ⊢
    exact after_board h hv
  | _ => rfl

/-- The version of the pool at a moment of a run. -/
def poolVersionAt (r : Run start serve) (n : Nat) : Nat := (r.state n).db.version

/-- The rows of a family at a moment of a run. -/
def shownAt (r : Run start serve) (family : Option Nat) (n : Nat) : String → Option IPRow := shown (r.state n).db family

/-- The version of the pool does not fall. -/
theorem poolVersionAt_mono (r : Run start serve) : Monotone (poolVersionAt r) := fun _ _ h => version_mono r h

/-- The board changes only under a new version. -/
theorem board_signal (r : Run start serve) : Signal.Sound (poolVersionAt r) fun n => board (r.state n).db := by
  refine Signal.Sound.of_step (poolVersionAt_mono r) fun n hv => ?_
  unfold poolVersionAt at hv
  cases hl : r.label n with
  | none => rw [r.state_of_none hl]
  | some e =>
    rw [r.state_of_some hl] at hv ⊢
    exact serve_board (r.makes_label makes_start hl) _ hv

/-- The rows of a family change only under a new version. -/
theorem pool_signal (r : Run start serve) (family : Option Nat) : Signal.Sound (poolVersionAt r) (shownAt r family) := by
  refine (board_signal r).of_eq fun m n h => ?_
  funext ip
  unfold shownAt
  rw [shown_eq_board, shown_eq_board, congrFun h ip]

end Gwsdb.Web
