import Gwsdb.Lemmas.PoolUpdate
import Gwsdb.Store.Publish
import Gwsdb.Theorems.DeltaExact

/-!
# Only measured IPs are published

A row of the pool has the verdict reachable and an RTT from the same success, so what is published has the RTT of the last success
that was recorded. But the writers store 0 for an RTT that is missing, and the query takes it for one that was measured
(`unmeasured_published`). In a run whose requests carry an RTT with each success that they leave as a verdict, only measured IPs
are published (`published_measured`).
-/

namespace Gwsdb.Store

open Interleave (Prog)
open Keyed (Table)

/-! ## Where the verdict of a row comes from -/

/-- A success of the IP at a time, with the RTT that was stored for it. -/
def Traced (Q : String → String → Option Int → Prop) (ip ts : String) (stored : Int) : Prop :=
  ∃ rttMs, Q ip ts rttMs ∧ rttMs.getD 0 = stored

/-- A row with the verdict reachable has the time and the RTT of one success. -/
def PoolRow.Traced (Q : String → String → Option Int → Prop) (ip : String) (row : PoolRow) : Prop :=
  row.lastCheckOk = some true → ∃ ts stored, row.lastSeen = some ts ∧ row.lastRttMs = some stored ∧ Store.Traced Q ip ts stored

/-- So have all rows. -/
def Database.Traced (Q : String → String → Option Int → Prop) (db : Database) : Prop :=
  ∀ ip row, db.pool.get? ip = some row → row.Traced Q ip

/-- A statement that leaves the verdict reachable writes a success. -/
def Stmt.Traces (Q : String → String → Option Int → Prop) : Stmt → Prop
  | poolUpsert p => p.latestOk = true → Store.Traced Q p.ip p.successTS p.rttMs
  | poolInsert p => p.latestOk = true → Store.Traced Q p.ip p.successTS p.rttMs
  | poolCheck ip ts ok rttMs => ok = true → Store.Traced Q ip ts rttMs
  | _ => True

section
variable {Q Q' : String → String → Option Int → Prop}

/-- A stored RTT stays traced as successes are added. -/
theorem Traced.mono (hQ : ∀ ip ts rttMs, Q ip ts rttMs → Q' ip ts rttMs) {ip ts : String}
    {stored : Int} (h : Traced Q ip ts stored) :
    Traced Q' ip ts stored := by
  obtain ⟨rttMs, hrtt, heq⟩ := h
  exact ⟨rttMs, hQ _ _ _ hrtt, heq⟩

/-- So do all rows of a database. -/
theorem Database.Traced.mono (hQ : ∀ ip ts rttMs, Q ip ts rttMs → Q' ip ts rttMs) {db : Database} (h : db.Traced Q) :
    db.Traced Q' := by
  intro ip row hrow hok
  obtain ⟨ts, stored, hseen, hrtt, htraced⟩ := h ip row hrow hok
  exact ⟨ts, stored, hseen, hrtt, htraced.mono hQ⟩

/-- So does a verdict that a statement writes. -/
theorem Stmt.Traces.mono (hQ : ∀ ip ts rttMs, Q ip ts rttMs → Q' ip ts rttMs) {stmt : Stmt} (h : stmt.Traces Q) :
    stmt.Traces Q' := by
  cases stmt with
  | poolUpsert p => exact fun hok => (h hok).mono hQ
  | poolInsert p => exact fun hok => (h hok).mono hQ
  | poolCheck ip ts ok rttMs => exact fun hok => (h hok).mono hQ
  | _ => trivial

/-- A write keeps the rows traced when what it writes is traced. -/
theorem traced_writePool {db : Database} (h : db.Traced Q) {ip : String} {f : Option PoolRow → Option PoolRow}
    (hf : ∀ old row, f old = some row → (∀ before, old = some before → before.Traced Q ip) → row.Traced Q ip) :
    (db.writePool ip f).2.Traced Q := by
  intro k row hrow
  rw [Database.get?_writePool] at hrow
  split at hrow
  · rename_i hk
    subst hk
    cases hwritten : f (db.pool.get? k) with
    | none =>
      rw [hwritten] at hrow
      exact h k row hrow
    | some written =>
      rw [hwritten] at hrow
      have htraced := hf _ _ hwritten fun before hbefore => h k before hbefore
      obtain rfl : { written with revision := db.version } = row := Option.some.inj hrow
      exact htraced
  · exact h k row hrow

/-- What a success writes is traced, over any old row. -/
theorem traced_upsert {p : PoolSuccess} (hp : p.latestOk = true → Traced Q p.ip p.successTS p.rttMs)
    (count : Nat) (incr : PoolRow → Nat)
    (old : Option PoolRow) : (p.upsert count incr old).Traced Q p.ip := by
  cases old with
  | none => exact fun hok => ⟨p.successTS, p.rttMs, rfl, rfl, hp (Option.some.inj hok)⟩
  | some row => exact fun hok => ⟨p.successTS, p.rttMs, rfl, rfl, hp (Option.some.inj hok)⟩

/-- A statement keeps the rows traced. -/
theorem traced_exec {db : Database} {stmt : Stmt} (hstmt : stmt.Traces Q) (h : db.Traced Q) : (db.exec stmt).2.Traced Q := by
  cases stmt with
  | bumpPoolRevision => exact h
  | markReset => exact h
  | insertCheck row always cutoff =>
    simp only [Database.exec]
    split
    · exact h
    · exact h
  | insertRecheck row => exact h
  | poolUpsert p =>
    refine traced_writePool h fun old row hrow _ => ?_
    rw [← Option.some.inj hrow]
    exact traced_upsert hstmt _ _ old
  | poolFailure ip latestTS cutoff =>
    refine traced_writePool h fun old row hrow _ hok => ?_
    obtain ⟨before, -, rfl⟩ := Option.map_eq_some_iff.1 hrow
    cases hok
  | poolCheck ip ts ok rttMs =>
    refine traced_writePool h fun old row hrow _ hok => ?_
    obtain ⟨before, -, rfl⟩ := Option.map_eq_some_iff.1 hrow
    obtain rfl : ok = true := Option.some.inj hok
    exact ⟨ts, rttMs, rfl, rfl, hstmt rfl⟩
  | poolInsert p =>
    refine traced_writePool h fun old row hrow _ => ?_
    rw [← Option.some.inj hrow]
    exact traced_upsert hstmt _ _ old
  | deleteOldChecks ips retention => exact h
  | recount ips =>
    intro ip row hrow
    rw [show (db.exec (.recount ips)).2.pool.get? ip = _ from Table.get?_mapRows _ _ _] at hrow
    obtain ⟨before, hbefore, rfl⟩ := Option.map_eq_some_iff.1 hrow
    have htraced := h ip before hbefore
    split
    · exact htraced
    · exact htraced
  | evict ips =>
    intro ip row hrow
    rw [show (db.exec (.evict ips)).2.pool.get? ip = _ from Table.get?_filter _ _ _] at hrow
    exact h ip row (Option.filter_eq_some_iff.1 hrow).1
  | savePTR ip row => exact h
  | touchPTR ip checkedAt =>
    refine traced_writePool h fun old row hrow hold => ?_
    obtain ⟨before, hbefore, rfl⟩ := Option.map_eq_some_iff.1 hrow
    exact hold before hbefore

/-! ## What the writers write -/

/-- What comes after a chunked writer comes only when all rows could be bound. -/
theorem makes_inChunks_bind {α β γ : Type} {P : Call → Prop} {size : Nat} (hsize : 0 < size) {bind : α → Except String β}
    {statements : List β → List Stmt} {rows : List α} {f : Unit → Program γ}
    (hbatch : ∀ bound, (∀ b ∈ bound, ∃ a ∈ rows, bind a = .ok b) → P (.batch (statements bound)))
    (hf : (∀ a ∈ rows, ∃ b, bind a = .ok b) → (f ()).Makes P) : (inChunks size bind statements rows >>= f).Makes P := by
  refine Prog.makes_forM_bind (C := fun chunk => ∀ a ∈ chunk, ∃ b, bind a = .ok b) (fun chunk hchunk rest hrest => ?_) fun hall =>
    hf fun a ha => ?_
  · rw [Prog.bind_assoc]
    refine Prog.makes_ofExcept_bind fun bound hbound => ⟨hbatch bound fun b hb => ?_, fun _ => hrest fun a ha => ?_⟩
    · obtain ⟨a, ha, hab⟩ := Interleave.exists_of_mapM_ok hbound hb
      exact ⟨a, Chunks.mem_of_mem_chunks hsize hchunk ha, hab⟩
    · obtain ⟨b, -, hab⟩ := after_inChunks.exists_bound_of_mem (Interleave.mapM_ok_iff.1 hbound) ha
      exact ⟨b, hab⟩
  · obtain ⟨chunk, hchunk, hac⟩ := Chunks.exists_mem_chunks hsize ha
    exact hall chunk hchunk a hac

/-- The latest row of an IP in a batch is its last one, and its success when it is one. -/
theorem uniqueOf_latest {rows : List CheckRow} {u : UniqueRow} (h : uniqueOf rows = some u) :
    rows.getLast? = some u.latest ∧ (u.latest.ok = true → u.success = some u.latest) := by
  induction rows using List.reverseRecOn with
  | nil => cases h
  | append_singleton rows row _ =>
    rw [uniqueOf_concat] at h
    obtain rfl := Option.some.inj h
    rw [List.getLast?_concat]
    cases uniqueOf rows with
    | none => exact ⟨rfl, fun hok => if_pos hok⟩
    | some state => exact ⟨rfl, fun hok => if_pos hok⟩

/-- The pool batch leaves the verdict of the last row of each IP. -/
theorem traces_updatePoolBatch {checks : List CheckRow} (hdates : ∀ row ∈ coalesceCheckRows checks, row.checkedAt.isSome)
    (h : ∀ ip row ts, (rowsOf (coalesceCheckRows checks) ip).getLast? = some row → row.ok = true →
      toSQLiteDateTime row.checkedAt = .ok ts → Q ip ts row.rttMs) (now : Int) :
    (updatePoolBatch now (coalesceCheckRows checks)).Makes (Each (Stmt.Traces Q)) := by
  refine makes_inChunks (by decide) fun stmts hstmts stmt hm => ?_
  rcases List.mem_cons.1 hm with rfl | hm
  · trivial
  obtain ⟨u, hu, hstmt⟩ := hstmts stmt hm
  obtain ⟨latestTS, -, ⟨-, rfl⟩ | ⟨s, successTS, scanMode, hs, hts, -, rfl⟩⟩ := poolStmt_ok hstmt
  · trivial
  intro hok
  have hshape : Shape (rowsOf (coalesceCheckRows checks) u.latest.ip) := by
    rw [rowsOf_coalesceCheckRows]
    refine keptRows_shape_of_kept fun row hrow => hdates row ?_
    rw [← rowsOf_coalesceCheckRows] at hrow
    exact (mem_rowsOf.1 hrow).1
  have hunique := mem_uniqueRows hu
  rw [keptRows_of_shape hshape] at hunique
  obtain ⟨hlast, hsuccess⟩ := uniqueOf_latest hunique
  have heq : u.latest = s := Option.some.inj ((hsuccess hok).symm.trans hs)
  exact ⟨s.rttMs, heq ▸ h u.latest.ip u.latest successTS hlast hok (heq ▸ hts), rfl⟩

/-- The single update leaves the verdict of its check. -/
theorem traces_updatePoolForCheck {ip : String} {ok : Bool} {rttMs : Option Int} {checkedAt : JsDate} (scanMode : Bindable)
    (h : ok = true → ∀ ts, toSQLiteDateTime checkedAt = .ok ts → Q ip ts rttMs) :
    (updatePoolForCheck ip ok rttMs checkedAt scanMode).Makes (Each (Stmt.Traces Q)) :=
  each_updatePoolForCheck trivial (fun ts hts hok => ⟨rttMs, h hok ts hts, rfl⟩) fun hok ts _ hts _ => ⟨rttMs, h hok ts hts, rfl⟩

/-- The statements that write no verdict. -/
def Stmt.Plain : Stmt → Prop
  | poolUpsert _ => False
  | poolInsert _ => False
  | poolCheck _ _ _ _ => False
  | _ => True

/-- A plain statement has no verdict to trace. -/
theorem Stmt.Plain.traces {stmt : Stmt} (h : stmt.Plain) : stmt.Traces Q := by
  cases stmt <;> first | exact h.elim | trivial

/-- A pruning statement is plain. -/
theorem Stmt.Prunes.plain {stmt : Stmt} (h : stmt.Prunes) : stmt.Plain := by
  cases stmt <;> first | exact h.elim | trivial

/-- Pruning the history makes plain statements. -/
theorem plain_pruneCheckHistory (ips : List String) : (pruneCheckHistory ips).Makes (Each Stmt.Plain) :=
  (prunes_pruneCheckHistory ips).mono fun _ h => h.mono fun _ => Stmt.Prunes.plain

/-- Saving a result in the history makes plain statements. -/
theorem plain_saveRecheckResult (r : RecheckResult) : (saveRecheckResult r).Makes (Each Stmt.Plain) := by
  have hinsert : (insertRecheck r).Makes (Each Stmt.Plain) :=
    Prog.makes_ofExcept_bind fun row _ => ⟨by simp [Each, Stmt.Plain], fun _ => trivial⟩
  unfold saveRecheckResult
  split
  · exact hinsert
  · refine ⟨trivial, fun known => ?_⟩
    cases known with
    | false => trivial
    | true => exact hinsert

/-- Saving names makes plain statements. -/
theorem plain_ptrPairs (pairs : List (String × PtrRow × String)) :
    Each Stmt.Plain (.batch (.bumpPoolRevision :: pairs.flatMap ptrPair)) :=
  each_ptrPairs trivial (fun _ _ => trivial) (fun _ _ => trivial) pairs

/-- A program that writes no verdict. -/
theorem traces_of_plain {α : Type} {p : Program α} (h : p.Makes (Each Stmt.Plain)) : p.Makes (Each (Stmt.Traces Q)) :=
  h.mono fun _ h => h.mono fun _ => Stmt.Plain.traces

end

end Gwsdb.Store

namespace Gwsdb.Web

open Gwsdb.Store
open Interleave (Prog Run)

/-! ## What requests leave as verdicts -/

/-- Rows whose values can all be bound. -/
def Storable (rows : List CheckRow) : Prop :=
  ∀ row ∈ rows, ∃ text mode, toSQLiteDateTime row.checkedAt = .ok text ∧ row.scanMode.bind = .ok mode

/-- A request leaves the verdict reachable for an IP, with a success of a time and an RTT: of an `/ingest` the last
row that is kept of the IP. -/
def Task.Leaves : Task → String → String → Option Int → Prop
  | .ingest _ _ (some body), ip, ts, rttMs => ∃ rows pruneIPs row, readIngest body = .ok (rows, pruneIPs) ∧ Storable rows ∧
    (rows.filter fun row => row.ip = ip).getLast? = some row ∧ row.ok = true ∧
      toSQLiteDateTime row.checkedAt = .ok ts ∧ row.rttMs = rttMs
  | .check checkedAt raw probe, ip, ts, rttMs => normalize raw = some ip ∧ probe.mixed = false ∧ probe.ok = true ∧
    toSQLiteDateTime (some checkedAt) = .ok ts ∧ probe.rttMs = rttMs
  | .result (some body), ip, ts, rttMs => ∃ r mode, readResult body = .ok r ∧ r.ip = ip ∧ r.ok = true ∧
    r.scanMode.bind = .ok mode ∧ toSQLiteDateTime r.checkedAt = .ok ts ∧ r.rttMs = rttMs
  | _, _, _, _ => False

/-- The successes that a request leaves as verdicts have an RTT, and not 0. -/
def Task.Measured (t : Task) : Prop := ∀ ip ts rttMs, t.Leaves ip ts rttMs → ∃ ms, rttMs = some ms ∧ ms ≠ 0

/-- Storing a check leaves the verdict of the check. The insert comes first, so its values could be bound. -/
theorem traces_storeCheck {Q : String → String → Option Int → Prop} {r : RecheckResult}
    (h : r.ok = true → ∀ ts mode, toSQLiteDateTime r.checkedAt = .ok ts → r.scanMode.bind = .ok mode → Q r.ip ts r.rttMs) :
    (storeCheck r).Makes (Each (Stmt.Traces Q)) := by
  have hrest : (∀ hok : r.ok = true, ∃ mode, r.scanMode.bind = .ok mode) →
      (updatePoolForCheck r.ip r.ok r.rttMs r.checkedAt r.scanMode >>= fun _ =>
          pruneCheckHistory [r.ip]).Makes (Each (Stmt.Traces Q)) := by
    intro hmode
    refine (traces_updatePoolForCheck r.scanMode fun hok ts hts => ?_).bind fun _ => traces_of_plain (plain_pruneCheckHistory _)
    obtain ⟨mode, hmode⟩ := hmode hok
    exact h hok ts mode hts hmode
  unfold storeCheck
  cases hok : r.ok with
  | false =>
    rw [hok] at hrest
    exact (traces_of_plain (plain_saveRecheckResult r)).bind fun _ => hrest nofun
  | true =>
    rw [hok] at hrest
    have hsave : saveRecheckResult r = insertRecheck r := by rw [saveRecheckResult, if_pos hok]
    rw [hsave, insertRecheck, Prog.bind_assoc]
    refine Prog.makes_ofExcept_bind fun row hrow => ⟨by simp [Each, Stmt.Traces], fun _ => hrest fun _ => ?_⟩
    obtain ⟨checkedAt, -, hrow⟩ := except_bind_ok hrow
    obtain ⟨mode, hmode, -⟩ := except_bind_ok hrow
    exact ⟨mode, hmode⟩

/-- Storing a buffer's rows leaves the verdict of the last row of each IP. -/
theorem traces_ingestRows {Q : String → String → Option Int → Prop} {checks : List CheckRow}
    (h : Storable (coalesceCheckRows checks) →
      ∀ ip row ts, (rowsOf (coalesceCheckRows checks) ip).getLast? = some row → row.ok = true →
      toSQLiteDateTime row.checkedAt = .ok ts → Q ip ts row.rttMs) (insertAt poolAt : Int) :
    (ingestRows insertAt poolAt (coalesceCheckRows checks)).Makes (Each (Stmt.Traces Q)) := by
  refine makes_inChunks_bind (by decide) (fun stmts hstmts stmt hm => ?_) fun hbound => ?_
  · obtain ⟨row, -, hrow⟩ := hstmts stmt hm
    obtain ⟨checkedAt, scanMode, -, -, rfl⟩ := insertCheckStmt_ok hrow
    trivial
  · have hstorable : Storable (coalesceCheckRows checks) := by
      intro row hrow
      obtain ⟨stmt, hstmt⟩ := hbound row hrow
      obtain ⟨text, mode, htext, hmode, -⟩ := insertCheckStmt_ok hstmt
      exact ⟨text, mode, htext, hmode⟩
    refine traces_updatePoolBatch (fun row hrow => ?_) (h hstorable) poolAt
    obtain ⟨text, -, htext, -⟩ := hstorable row hrow
    cases hdate : row.checkedAt with
    | none =>
      rw [hdate] at htext
      cases htext
    | some t => rfl

/-- An ingest request writes the verdicts it leaves. -/
theorem traces_handleIngest (insertAt poolAt : Int) (body : IngestBody) :
    (handleIngest insertAt poolAt (some body)).Makes (Each (Stmt.Traces (Task.ingest insertAt poolAt (some body)).Leaves)) := by
  cases hread : readIngest body with
  | error response =>
    rw [handleIngest_of_error hread]
    trivial
  | ok read =>
    obtain ⟨rows, pruneIPs⟩ := read
    obtain ⟨checks, -, hrows⟩ := readIngest_ok hread
    rw [handleIngest_of_ok hread]
    refine Prog.Makes.bind ?_ fun _ => ?_
    · subst hrows
      exact traces_ingestRows (fun hstorable ip row ts hlast hok hts => ⟨_, _, row, hread, hstorable, hlast, hok, hts, rfl⟩) _ _
    · split
      · exact (traces_of_plain (plain_pruneCheckHistory _)).bind fun _ => trivial
      · trivial

/-- So does a check request. -/
theorem traces_handleCheck (checkedAt : Int) (raw : String) (probe : ProbeResponse) :
    (handleCheck checkedAt raw probe).Makes (Each (Stmt.Traces (Task.check checkedAt raw probe).Leaves)) := by
  cases hip : normalize raw with
  | none =>
    rw [handleCheck_of_invalid hip]
    trivial
  | some ip =>
    by_cases hmixed : probe.mixed = true
    · rw [handleCheck_of_mixed hip hmixed]
      trivial
    · rw [handleCheck_of_probed hip hmixed]
      refine (traces_storeCheck fun hok ts mode hts _ => ?_).bind fun _ => trivial
      exact ⟨hip, Bool.eq_false_iff.2 hmixed, hok, hts, rfl⟩

/-- So does a result request. -/
theorem traces_handleResult (body : ResultBody) :
    (handleResult (some body)).Makes (Each (Stmt.Traces (Task.result (some body)).Leaves)) := by
  cases hread : readResult body with
  | error response =>
    rw [handleResult_of_error hread]
    trivial
  | ok r =>
    rw [handleResult_of_ok hread]
    exact (traces_storeCheck fun hok ts mode hts hmode => ⟨r, mode, hread, rfl, hok, hmode, hts, rfl⟩).bind fun _ => trivial

/-- The verdicts that a task writes are those it leaves. -/
theorem traces_start (t : Task) : (start t).Makes (Each (Stmt.Traces t.Leaves)) := by
  cases t with
  | ingest insertAt poolAt body =>
    cases body with
    | none => trivial
    | some body => exact traces_handleIngest insertAt poolAt body
  | check checkedAt raw probe => exact traces_handleCheck checkedAt raw probe
  | result body =>
    cases body with
    | none => trivial
    | some body => exact traces_handleResult body
  | prune ips => exact (traces_of_plain (plain_pruneCheckHistory ips)).bind fun _ => trivial
  | savePTR e => exact (traces_of_plain (makes_savePTR_of plain_ptrPairs e)).bind fun _ => trivial
  | savePTRBatch entries => exact (traces_of_plain (makes_savePTRBatch_of plain_ptrPairs entries)).bind fun _ => trivial
  | changes since edgeHit totalsHit =>
    refine (makes_handleChanges since edgeHit totalsHit).mono fun e he => ?_
    cases e <;> first | exact he.elim | trivial

/-! ## Whole runs -/

/-- A request of the run so far leaves the verdict. -/
def Left (r : Run start serve) (n : Nat) (ip ts : String) (rttMs : Option Int) : Prop :=
  ∃ t ∈ (r.config n).threads, t.task.Leaves ip ts rttMs

/-- A verdict of the run so far is one of the run later. -/
theorem Left.mono {r : Run start serve} {m n : Nat} (hmn : m ≤ n) {ip ts : String}
    {rttMs : Option Int} (h : Left r m ip ts rttMs) :
    Left r n ip ts rttMs := by
  obtain ⟨t, ht, hleaves⟩ := h
  obtain ⟨t', ht', htask⟩ := r.task_mono hmn ht
  exact ⟨t', ht', htask ▸ hleaves⟩

/-- From empty tables, the verdicts in the pool are those that requests left. -/
theorem traced_run (r : Run start serve) (hempty : (r.state 0).db = Database.empty) (n : Nat) :
    (r.state n).db.Traced (Left r n) := by
  induction n with
  | zero =>
    rw [hempty]
    intro ip row hrow
    cases hrow
  | succ n ih =>
    have hlater := ih.mono fun ip ts rttMs h => h.mono n.le_succ
    cases hl : r.label n with
    | none =>
      rw [r.state_of_none hl]
      exact hlater
    | some e =>
      rw [r.state_of_some hl]
      cases e with
      | batch stmts =>
        obtain ⟨t, ht, k, hk⟩ := r.thread_of_label hl
        obtain ⟨hafter, -⟩ := r.thread_spec n t ht
        rw [hk] at hafter
        have htraces := (hafter.makes (traces_start t.task)).2.1
        rw [serve_batch]
        refine Database.after_invariant (I := fun db => db.Traced (Left r (n + 1)))
          (fun db stmt => traced_exec) (fun stmt hm => ?_) hlater
        have hleft : ∀ ip ts rttMs, t.task.Leaves ip ts rttMs → Left r (n + 1) ip ts rttMs := fun ip ts rttMs h =>
          Left.mono n.le_succ ⟨t, ht, h⟩
        exact Stmt.Traces.mono hleft (htraces stmt hm)
      | _ => exact hlater

/-- What is published is reachable, with a measured RTT that came with its last success. -/
def PublishesMeasured (r : Run start serve) (n : Nat) : Prop :=
  ∀ family limit ip, ip ∈ (r.state n).db.topIPsForPublish family limit → ∃ row ts ms, (r.state n).db.pool.get? ip = some row ∧
    row.lastCheckOk = some true ∧ row.lastSeen = some ts ∧ row.lastRttMs = some ms ∧ ms ≠ 0 ∧ Left r n ip ts (some ms)

/-- From empty tables, whatever the requests and their interleaving: while all requests carry a measured RTT with the successes
they leave as verdicts, only measured IPs are published. -/
theorem published_measured (r : Run start serve) (hempty : (r.state 0).db = Database.empty) (n : Nat)
    (hmeasured : ∀ t ∈ (r.config n).threads, t.task.Measured) : PublishesMeasured r n := by
  intro family limit ip hip
  obtain ⟨row, hrow, hpublishable⟩ := Database.mem_topIPsForPublish hip
  have hok : row.lastCheckOk = some true := by
    simp only [PoolRow.publishable, Bool.and_eq_true, decide_eq_true_eq] at hpublishable
    exact hpublishable.1.2
  obtain ⟨ts, stored, hseen, hrtt, rttMs, hleft, hstored⟩ := traced_run r hempty n ip row hrow hok
  obtain ⟨t, ht, hleaves⟩ := hleft
  obtain ⟨ms, rfl, hne⟩ := hmeasured t ht ip ts rttMs hleaves
  rw [Option.getD_some] at hstored
  subst hstored
  exact ⟨row, ts, ms, hrow, hok, hseen, hrtt, hne, t, ht, hleaves⟩

/-- The check of `firstResult`, which has an RTT. -/
theorem published_measured_first : PublishesMeasured firstRun 17 := by
  refine published_measured firstRun rfl 17 fun t ht => ?_
  have htasks : (firstRun.config 17).threads.map (·.task) =
    [.result (some firstResult), .changes 0 true true] := by decide +kernel
  have htask : t.task ∈ [.result (some firstResult), .changes 0 true true] := htasks ▸ List.mem_map_of_mem ht
  rcases List.mem_cons.1 htask with heq | htask
  · rw [heq]
    rintro ip ts rttMs ⟨r, mode, hread, -, -, -, -, rfl⟩
    have hresult : readResult firstResult =
        .ok ⟨"8.8.8.8", true, some 12, none, none, some 1000, .text "SNI"⟩ := by decide +kernel
    rw [hresult] at hread
    obtain rfl := Except.ok.inj hread
    exact ⟨12, rfl, by decide⟩
  · rw [List.mem_singleton.1 htask]
    rintro ip ts rttMs hleaves
    exact hleaves.elim

/-- The same check with no RTT. -/
def unmeasuredRun : Run start serve :=
  Run.scheduled start serve (.prune []) emptySite
    ([.spawn (.result (some { firstResult with rttMs := none }))] ++ List.replicate 3 (.call 0))

/-- The IP is published, with an RTT of 0 that nobody measured. -/
theorem unmeasured_published : (unmeasuredRun.state 0).db = Database.empty ∧
    "8.8.8.8" ∈ (unmeasuredRun.state 4).db.topIPsForPublish .ipv4 4 ∧
    ((unmeasuredRun.state 4).db.pool.get? "8.8.8.8").bind (·.lastRttMs) = some 0 ∧ ¬PublishesMeasured unmeasuredRun 4 := by
  have hpublished : "8.8.8.8" ∈ (unmeasuredRun.state 4).db.topIPsForPublish .ipv4 4 := by decide +kernel
  have hrtt : ((unmeasuredRun.state 4).db.pool.get? "8.8.8.8").bind (·.lastRttMs) = some 0 := by decide +kernel
  refine ⟨rfl, hpublished, hrtt, fun h => ?_⟩
  obtain ⟨row, ts, ms, hrow, -, -, hms, hne, -⟩ := h .ipv4 4 "8.8.8.8" hpublished
  rw [hrow, Option.bind_some, hms] at hrtt
  exact hne (Option.some.inj hrtt)

end Gwsdb.Web
