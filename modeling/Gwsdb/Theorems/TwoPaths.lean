import Gwsdb.Lemmas.PoolUpdate

/-!
# Two paths to the pool

A success is stored by `saveRecheckResult` and `updatePoolForCheck`, or as a batch of one by `insertCheckRows` and
`updatePoolBatch`. Of an IP that is new, both make the same row. Of an IP of the pool, both change the same columns but
one: the batch writes the scan mode, the single check leaves the old one. So the rows are the same exactly when the
scan mode is (`paths_agree_iff`).
-/

namespace Gwsdb.Store

open Interleave (Prog)
open Keyed (Table)

/-! ## The paths -/

/-- The check as a row of a batch. -/
def RecheckResult.toCheckRow (r : RecheckResult) : CheckRow := ⟨r.ip, r.ok, r.rttMs, r.reason, r.detail, r.checkedAt, r.scanMode⟩

/-- A check on its own. -/
def singlePath (r : RecheckResult) : Program Unit := do
  saveRecheckResult r
  updatePoolForCheck r.ip r.ok r.rttMs r.checkedAt r.scanMode

/-- A check as a batch, at two clock readings. -/
def batchPath (insertAt poolAt : Int) (r : RecheckResult) : Program Unit := do
  insertCheckRows insertAt [r.toCheckRow]
  updatePoolBatch poolAt [r.toCheckRow]

/-- The pool row of an IP in all columns but the revision. -/
def Database.unstamped (db : Database) (ip : String) : Option PoolRow :=
    (db.pool.get? ip).map fun row => { row with revision := 0 }

/-- The database after a path. -/
def dbAfter (path : Program Unit) (s : Site) : Database := (path.run serve s).2.db

/-- The paths leave the same row of the IP but for the revision, and no other row is changed. -/
structure PathsAgree (insertAt poolAt : Int) (r : RecheckResult) (s : Site) : Prop where
  same : (dbAfter (singlePath r) s).unstamped r.ip = (dbAfter (batchPath insertAt poolAt r) s).unstamped r.ip
  others : ∀ ip, ip ≠ r.ip → (dbAfter (singlePath r) s).pool.get? ip = s.db.pool.get? ip ∧
    (dbAfter (batchPath insertAt poolAt r) s).pool.get? ip = s.db.pool.get? ip

/-! ## The history after either insert -/

/-- Two rows of one IP and time leave the same times. -/
theorem times_insert (t : IpChecks) {a b : NewCheck} (hip : a.ip = b.ip) (hat : a.checkedAt = b.checkedAt) (ip : String) :
    ((t.insert a).of ip).map (·.checkedAt) = ((t.insert b).of ip).map (·.checkedAt) := by
  have hkeys : t.HasKey a ↔ t.HasKey b := by
    unfold IpChecks.HasKey
    rw [hip, hat]
  by_cases hkey : t.HasKey a
  · rw [IpChecks.insert_of_hasKey hkey, IpChecks.insert_of_hasKey (hkeys.1 hkey)]
  · have hkey' : ¬t.HasKey b := fun h => hkey (hkeys.2 h)
    rw [IpChecks.insert_of_not_hasKey hkey, IpChecks.insert_of_not_hasKey hkey', IpChecks.append_of, IpChecks.append_of, hip]
    split
    · rw [List.map_append, List.map_append]
      exact congrArg (fun at' => (t.of ip).map (·.checkedAt) ++ [at']) hat
    · rfl

namespace Database

/-- Both counts of a history are those of its times. -/
theorem counts_congr {db db' : Database} {ip : String}
    (h : (db.checks.of ip).map (·.checkedAt) = (db'.checks.of ip).map (·.checkedAt)) :
    db.historyCount ip = db'.historyCount ip ∧ db.historyCountIncr ip = db'.historyCountIncr ip := by
  constructor
  · have hlength := congrArg List.length h
    rwa [List.length_map, List.length_map] at hlength
  · funext row
    have hcount := congrArg (List.countP fun at' => row.lastCheckedAt.any fun last => decide (last < at')) h
    rw [List.countP_map, List.countP_map] at hcount
    unfold historyCountIncr
    exact congrArg (row.historyCount + ·) hcount

/-- Two rows of one IP and one time count the same. -/
theorem counts_insertRow (db : Database) {a b : NewCheck} (hip : a.ip = b.ip) (hat : a.checkedAt = b.checkedAt) (ip : String) :
    (db.insertRow a).2.historyCount ip = (db.insertRow b).2.historyCount ip ∧
      (db.insertRow a).2.historyCountIncr ip = (db.insertRow b).2.historyCountIncr ip :=
  counts_congr (times_insert db.checks hip hat ip)

/-- A pool write after a new revision. -/
theorem get?_after_write (db : Database) (stmt : Stmt) {ip : String} (h : stmt.poolIp? = some ip) (k : String) :
    (db.after [.bumpPoolRevision, stmt]).pool.get? k =
      if k = ip then ((db.rewrite stmt (db.pool.get? ip)).map fun row =>
        { row with revision := db.version + 1 }).or (db.pool.get? ip)
      else db.pool.get? k := by
  show (((db.exec .bumpPoolRevision).2.exec stmt).2).pool.get? k = _
  have hrewrite : (db.exec .bumpPoolRevision).2.rewrite stmt = db.rewrite stmt := rewrite_congr h rfl
  rw [exec_writes _ h, get?_writePool, hrewrite]
  rfl

/-- A pool statement leaves the checks alone. -/
theorem after_write_checks (db : Database) {stmt : Stmt} {ip : String} (h : stmt.poolIp? = some ip) :
    (db.after [.bumpPoolRevision, stmt]).checks = db.checks := by
  show (((db.exec .bumpPoolRevision).2.exec stmt).2).checks = _
  rw [exec_writes _ h, writePool_checks]
  rfl

/-- A pool statement rewrites the row of its IP. -/
theorem unstamped_after_write (db : Database) (stmt : Stmt) {ip : String} (h : stmt.poolIp? = some ip)
    (hwrites : (db.rewrite stmt (db.pool.get? ip)).isSome) : (db.after [.bumpPoolRevision, stmt]).unstamped ip =
      (db.rewrite stmt (db.pool.get? ip)).map fun row => { row with revision := 0 } := by
  obtain ⟨row, hrow⟩ := Option.isSome_iff_exists.1 hwrites
  unfold unstamped
  rw [get?_after_write db stmt h, if_pos rfl, hrow]
  rfl

end Database

/-! ## What each path writes -/

/-- One row makes one chunk. -/
theorem chunks_singleton {α : Type} {size : Nat} (hsize : 0 < size) (a : α) : Chunks.chunks size [a] = [[a]] := by
  rw [Chunks.chunks_eq_take_cons (List.cons_ne_nil a []), List.take_of_length_le (show [a].length ≤ size from hsize)]
  rfl

/-- A chunked writer of one row makes one batch. -/
theorem inChunks_singleton {α β : Type} {size : Nat} (hsize : 0 < size) (bind : α → Except String β)
    (statements : List β → List Stmt) (a : α) :
    inChunks size bind statements [a] = Prog.ofExcept (bind a) >>= fun b => .call (.batch (statements [b])) fun _ => .ret () := by
  unfold inChunks
  rw [chunks_singleton hsize]
  cases hbind : bind a with
  | ok b =>
    show (Prog.ofExcept ([a].mapM bind) >>= fun bound => _) >>= _ = _
    rw [List.mapM_cons, hbind]
    rfl
  | error e =>
    show (Prog.ofExcept ([a].mapM bind) >>= fun bound => _) >>= _ = _
    rw [List.mapM_cons, hbind]
    rfl

section
variable {r : RecheckResult} {ts : String} {mode : Option String}

/-- What a success writes to the pool. -/
def RecheckResult.success (r : RecheckResult) (ts : String) (mode : Option String) : PoolSuccess :=
  ⟨r.ip, r.ip.toList.contains ':', mode, ts, r.rttMs.getD 0, ts, true⟩

/-- The row a success inserts into the history, with a reason. -/
def RecheckResult.check (r : RecheckResult) (reason : Option String) (ts : String) (mode : Option String) : NewCheck :=
  ⟨r.ip, true, r.rttMs, reason, r.detail, ts, mode⟩

/-- The check is a success whose values can be bound. -/
structure RecheckResult.Succeeds (r : RecheckResult) (ts : String) (mode : Option String) : Prop where
  ok : r.ok = true
  time : toSQLiteDateTime r.checkedAt = .ok ts
  scanMode : r.scanMode.bind = .ok mode

/-- A successful result is stored as a recheck that is ok. -/
theorem recheckRow_success (h : r.Succeeds ts mode) : recheckRow r = .ok (r.check (some "recheck:ok") ts mode) := by
  obtain ⟨hok, hts, hmode⟩ := h
  unfold recheckRow
  rw [hts, hmode]
  exact if_pos hok

/-- In a batch it is stored with its own reason. -/
theorem insertCheckStmt_success (h : r.Succeeds ts mode) (ips : List String) (cutoff : String) :
    insertCheckStmt ips cutoff r.toCheckRow = .ok (.insertCheck (r.check r.reason ts mode) true cutoff) := by
  obtain ⟨hok, hts, hmode⟩ := h
  unfold insertCheckStmt RecheckResult.toCheckRow
  simp only [hok, Bool.true_or, hts, hmode]
  rfl

/-- One successful row is the success of its IP. -/
theorem uniqueRows_singleton {row : CheckRow} (hok : row.ok = true) : uniqueRows [row] = [⟨row, some row⟩] := by
  have hcoalesced : coalesceCheckRows [row] = [row] := coalesceCheckRows_of_nodup (List.nodup_singleton _)
  have hunique : uniqueRow row none = ⟨row, some row⟩ := by rw [uniqueRow, if_pos hok]
  unfold uniqueRows
  rw [hcoalesced, ← hunique]
  rfl

/-- It upserts the pool row. -/
theorem poolStmt_success (h : r.Succeeds ts mode) (cutoff : String) :
    poolStmt cutoff ⟨r.toCheckRow, some r.toCheckRow⟩ = .ok (.poolUpsert (r.success ts mode)) := by
  obtain ⟨hok, hts, hmode⟩ := h
  unfold poolStmt RecheckResult.toCheckRow
  simp only [hok, hts, hmode]
  rfl

/-- The update of a success, and for a new IP the insert into the pool. -/
theorem dbAfter_updatePoolForCheck (h : r.Succeeds ts mode) (s : Site) :
    dbAfter (updatePoolForCheck r.ip r.ok r.rttMs r.checkedAt r.scanMode) s =
      if (s.db.pool.get? r.ip).isSome then s.db.after [.bumpPoolRevision, .poolCheck r.ip ts true (r.rttMs.getD 0)]
      else (s.db.after [.bumpPoolRevision, .poolCheck r.ip ts true (r.rttMs.getD 0)]).after
        [.bumpPoolRevision, .poolInsert (r.success ts mode)] := by
  obtain ⟨hok, hts, hmode⟩ := h
  have hresult : (serve (.batch [.bumpPoolRevision, .poolCheck r.ip ts true (r.rttMs.getD 0)]) s).1[1]? =
      some (if (s.db.pool.get? r.ip).isSome then 1 else 0) := Database.batch_poolCheck _ _ _ _ _
  unfold dbAfter updatePoolForCheck
  rw [hts, hok]
  simp only [Prog.ofExcept, Prog.ret_bind, perform, Prog.perform_bind, Prog.run_call, hresult]
  cases hsome : (s.db.pool.get? r.ip).isSome with
  | true => rfl
  | false =>
    simp only [Bool.false_eq_true, if_false, and_self, if_true, insertPoolRow, hmode]
    rfl

/-- A single success: the insert, and what the pool update makes of it. -/
theorem dbAfter_singlePath (h : r.Succeeds ts mode) (s : Site) :
    dbAfter (singlePath r) s = dbAfter (updatePoolForCheck r.ip r.ok r.rttMs r.checkedAt r.scanMode)
      { s with db := (s.db.insertRow (r.check (some "recheck:ok") ts mode)).2 } := by
  unfold dbAfter singlePath saveRecheckResult insertRecheck
  rw [if_pos h.ok, recheckRow_success h]
  rfl

/-- A batch of a success: the insert and the upsert. -/
theorem dbAfter_batchPath (h : r.Succeeds ts mode) (insertAt poolAt : Int) (s : Site) :
    dbAfter (batchPath insertAt poolAt r) s =
      (s.db.insertRow (r.check r.reason ts mode)).2.after [.bumpPoolRevision, .poolUpsert (r.success ts mode)] := by
  unfold dbAfter batchPath insertCheckRows updatePoolBatch
  rw [@uniqueRows_singleton r.toCheckRow h.ok, inChunks_singleton (by decide), inChunks_singleton (by decide),
    insertCheckStmt_success h, poolStmt_success h]
  rfl

/-- A value that cannot be bound ends both paths before they write. -/
theorem dbAfter_of_error (hok : r.ok = true) (h : ∀ ts mode, toSQLiteDateTime r.checkedAt = .ok ts → r.scanMode.bind ≠ .ok mode)
    (insertAt poolAt : Int) (s : Site) : dbAfter (singlePath r) s = s.db ∧ dbAfter (batchPath insertAt poolAt r) s = s.db := by
  have hrow : ∃ e, recheckRow r = .error e := by
    cases hrow : recheckRow r with
    | error e => exact ⟨e, rfl⟩
    | ok row =>
      obtain ⟨ts, hts, hrow⟩ := except_bind_ok hrow
      obtain ⟨mode, hmode, -⟩ := except_bind_ok hrow
      exact absurd hmode (h ts mode hts)
  have hstmt : ∀ ips cutoff, ∃ e, insertCheckStmt ips cutoff r.toCheckRow = .error e := by
    intro ips cutoff
    cases hstmt : insertCheckStmt ips cutoff r.toCheckRow with
    | error e => exact ⟨e, rfl⟩
    | ok stmt =>
      obtain ⟨ts, mode, hts, hmode, -⟩ := insertCheckStmt_ok hstmt
      exact absurd hmode (h ts mode hts)
  constructor
  · obtain ⟨e, he⟩ := hrow
    unfold dbAfter singlePath saveRecheckResult insertRecheck
    rw [if_pos hok, he]
    rfl
  · obtain ⟨e, he⟩ := hstmt (([r.toCheckRow].filter (·.ok)).map (·.ip)) (dedupCutoff insertAt)
    unfold dbAfter batchPath insertCheckRows
    rw [inChunks_singleton (by decide), he]
    rfl

/-! ## The rows -/

/-- The row that both paths leave of one of the pool, but for the scan mode. -/
def RecheckResult.renewed (r : RecheckResult) (ts : String) (count : Nat) (row : PoolRow) : PoolRow :=
  { row with
    lastSeen := some ts, lastRttMs := some (r.rttMs.getD 0), timesSeen := row.timesSeen + 1, lastCheckedAt := some ts,
    lastCheckOk := some true, revision := 0, historyCount := count }

/-- The single path renews a row the pool has. -/
theorem single_known (h : r.Succeeds ts mode) {s : Site} {row : PoolRow} (hrow : s.db.pool.get? r.ip = some row) :
    (dbAfter (singlePath r) s).unstamped r.ip =
      some (r.renewed ts ((s.db.insertRow (r.check (some "recheck:ok") ts mode)).2.historyCountIncr r.ip row) row) := by
  have hpool : (s.db.insertRow (r.check (some "recheck:ok") ts mode)).2.pool.get? r.ip = some row := hrow
  rw [dbAfter_singlePath h, dbAfter_updatePoolForCheck h, if_pos (by rw [hpool]; rfl)]
  rw [@Database.unstamped_after_write _ (.poolCheck r.ip ts true (r.rttMs.getD 0)) r.ip rfl (by rw [hpool]; rfl), hpool]
  rfl

/-- So does the batch, the scan mode apart. -/
theorem batch_known (h : r.Succeeds ts mode) (insertAt poolAt : Int) {s : Site} {row : PoolRow}
    (hrow : s.db.pool.get? r.ip = some row) :
    (dbAfter (batchPath insertAt poolAt r) s).unstamped r.ip =
      some
        { r.renewed ts ((s.db.insertRow (r.check r.reason ts mode)).2.historyCountIncr r.ip row) row with
          scanMode := mode } := by
  have hpool : (s.db.insertRow (r.check r.reason ts mode)).2.pool.get? r.ip = some row := hrow
  rw [dbAfter_batchPath h]
  rw [@Database.unstamped_after_write _ (.poolUpsert (r.success ts mode)) r.ip rfl rfl, hpool]
  rfl

/-- A new IP gets the same row. The update of the single path finds no row. -/
theorem same_new (h : r.Succeeds ts mode) (insertAt poolAt : Int) {s : Site} (hrow : s.db.pool.get? r.ip = none) :
    (dbAfter (singlePath r) s).unstamped r.ip = (dbAfter (batchPath insertAt poolAt r) s).unstamped r.ip := by
  have hpool : ∀ check, (s.db.insertRow check).2.pool.get? r.ip = none := fun _ => hrow
  have hcounts := (@Database.counts_insertRow s.db (r.check (some "recheck:ok") ts mode)
    (r.check r.reason ts mode) rfl rfl r.ip).1
  have hcheck : (Stmt.poolCheck r.ip ts true (r.rttMs.getD 0)).poolIp? = some r.ip := rfl
  rw [dbAfter_singlePath h, dbAfter_updatePoolForCheck h, if_neg (by rw [hpool]; exact Bool.false_ne_true),
    dbAfter_batchPath h]
  generalize hdb : (s.db.insertRow (r.check (some "recheck:ok") ts mode)).2 = db at hcounts
  have hnone : db.pool.get? r.ip = none := hdb ▸ hpool _
  have hnone' : (db.after [.bumpPoolRevision, .poolCheck r.ip ts true (r.rttMs.getD 0)]).pool.get? r.ip = none := by
    rw [Database.get?_after_write db _ hcheck, if_pos rfl, hnone]
    rfl
  have hhistory : (db.after [.bumpPoolRevision, .poolCheck r.ip ts true (r.rttMs.getD 0)]).historyCount
      r.ip = db.historyCount r.ip := by
    unfold Database.historyCount
    rw [Database.after_write_checks db hcheck]
  have hsingle : (db.after [.bumpPoolRevision, .poolCheck r.ip ts true (r.rttMs.getD 0)]).rewrite
    (.poolInsert (r.success ts mode))
      none = some ((r.success ts mode).upsert (db.historyCount r.ip) (fun _ => 0) none) := by
    rw [← hhistory]
    rfl
  have hbatch : (s.db.insertRow (r.check r.reason ts mode)).2.rewrite (.poolUpsert (r.success ts mode)) none =
      some ((r.success ts mode).upsert (db.historyCount r.ip) (fun _ => 0) none) := by
    rw [hcounts]
    rfl
  rw [@Database.unstamped_after_write _ (.poolInsert (r.success ts mode)) r.ip rfl rfl, hnone', hsingle,
    @Database.unstamped_after_write _ (.poolUpsert (r.success ts mode)) r.ip rfl rfl, hpool, hbatch]

/-- Neither path touches another row. -/
theorem others_kept (hok : r.ok = true) (insertAt poolAt : Int) (s : Site) {ip : String} (hip : ip ≠ r.ip) :
    (dbAfter (singlePath r) s).pool.get? ip = s.db.pool.get? ip ∧
      (dbAfter (batchPath insertAt poolAt r) s).pool.get? ip = s.db.pool.get? ip := by
  by_cases hbound : ∃ ts mode, toSQLiteDateTime r.checkedAt = .ok ts ∧ r.scanMode.bind = .ok mode
  · obtain ⟨ts, mode, hts, hmode⟩ := hbound
    have h : r.Succeeds ts mode := ⟨hok, hts, hmode⟩
    have hwrite : ∀ (db : Database) (stmt : Stmt), stmt.poolIp? = some r.ip →
        (db.after [.bumpPoolRevision, stmt]).pool.get? ip = db.pool.get? ip := fun db stmt h => by
      rw [Database.get?_after_write db stmt h, if_neg hip]
    constructor
    · rw [dbAfter_singlePath h, dbAfter_updatePoolForCheck h]
      split
      · exact hwrite _ _ rfl
      · exact (hwrite _ _ rfl).trans (hwrite _ _ rfl)
    · rw [dbAfter_batchPath h]
      exact hwrite _ _ rfl
  · have hunbound : ∀ ts mode, toSQLiteDateTime r.checkedAt = .ok ts → r.scanMode.bind ≠ .ok mode := fun ts mode hts hmode =>
      hbound ⟨ts, mode, hts, hmode⟩
    obtain ⟨hsingle, hbatch⟩ := dbAfter_of_error hok hunbound insertAt poolAt s
    rw [hsingle, hbatch]
    exact ⟨rfl, rfl⟩

end

/-- For a success, the paths agree exactly when the IP is new, or its row has the scan mode of the check, or
the check cannot be stored. -/
theorem paths_agree_iff {r : RecheckResult} (hok : r.ok = true) (insertAt poolAt : Int) (s : Site) :
    PathsAgree insertAt poolAt r s ↔
    ∀ row ts mode, s.db.pool.get? r.ip = some row → toSQLiteDateTime r.checkedAt = .ok ts → r.scanMode.bind = .ok mode →
      row.scanMode = mode := by
  constructor
  · intro h row ts mode hrow hts hmode
    have hsame := h.same
    rw [single_known ⟨hok, hts, hmode⟩ hrow, batch_known ⟨hok, hts, hmode⟩ insertAt poolAt hrow] at hsame
    exact congrArg PoolRow.scanMode (Option.some.inj hsame)
  · intro h
    refine ⟨?_, fun ip hip => others_kept hok insertAt poolAt s hip⟩
    by_cases hbound : ∃ ts mode, toSQLiteDateTime r.checkedAt = .ok ts ∧ r.scanMode.bind = .ok mode
    · obtain ⟨ts, mode, hts, hmode⟩ := hbound
      have hsuccess : r.Succeeds ts mode := ⟨hok, hts, hmode⟩
      cases hrow : s.db.pool.get? r.ip with
      | none => exact same_new hsuccess insertAt poolAt hrow
      | some row =>
        have hincr := (@Database.counts_insertRow s.db (r.check (some "recheck:ok") ts mode)
          (r.check r.reason ts mode) rfl rfl r.ip).2
        rw [single_known hsuccess hrow, batch_known hsuccess insertAt poolAt hrow, hincr, ← h row ts mode hrow hts hmode]
        rfl
    · have hunbound : ∀ ts mode, toSQLiteDateTime r.checkedAt = .ok ts → r.scanMode.bind ≠ .ok mode := fun ts mode hts hmode =>
        hbound ⟨ts, mode, hts, hmode⟩
      obtain ⟨hsingle, hbatch⟩ := dbAfter_of_error hok hunbound insertAt poolAt s
      rw [hsingle, hbatch]

/-- A success in a scan mode. -/
def successIn (mode : String) (t : Int) : RecheckResult := ⟨"8.8.8.8", true, some 12, none, none, some t, .text mode⟩

/-- The site whose only check is one in a scan mode. -/
def siteIn (mode : String) : Site := ⟨dbAfter (singlePath (successIn mode 0))
    ⟨Database.empty, Table.empty, none⟩, Table.empty, none⟩

/-- A second check in the same mode. -/
theorem paths_agree_same : PathsAgree 0 0 (successIn "SNI" 1000) (siteIn "SNI") := by
  refine (paths_agree_iff rfl 0 0 _).2 fun row ts mode hrow _ hmode => ?_
  have hscan : ((siteIn "SNI").db.pool.get? "8.8.8.8").bind (·.scanMode) = some "SNI" := by decide +kernel
  rw [show (siteIn "SNI").db.pool.get? "8.8.8.8" = some row from hrow] at hscan
  exact hscan.trans (Except.ok.inj hmode)

/-- A second check in another mode: the single check leaves the old mode, the batch writes the new one. -/
theorem modes_differ : ((dbAfter (singlePath (successIn "SNI" 1000)) (siteIn "TLS")).pool.get? "8.8.8.8").bind (·.scanMode) =
    some "TLS" ∧
    ((dbAfter (batchPath 0 0 (successIn "SNI" 1000)) (siteIn "TLS")).pool.get? "8.8.8.8").bind (·.scanMode) = some "SNI" ∧
    ¬PathsAgree 0 0 (successIn "SNI" 1000) (siteIn "TLS") := by
  refine ⟨by decide +kernel, by decide +kernel, fun h => ?_⟩
  exact absurd h.same (by decide +kernel)

end Gwsdb.Store
