import Gwsdb.Lemmas.Statements
import Gwsdb.Web.Requests

/-!
# The batches the handlers make

Every batch of every task has one of five forms (`WriteBatch`): inserts of checks, writes of stamped pool rows, saves of PTR
results, a prune of old checks, an eviction. What holds across these forms holds across every run of tasks.
-/

namespace Gwsdb.Store

open Interleave (Prog exists_of_mapM_ok)

/-- A PTR result saved: the hostnames, and the pool row touched. -/
def ptrPair (p : String × PtrRow × String) : List Stmt := [.savePTR p.1 p.2.1, .touchPTR p.1 p.2.2]

/-- The forms of the batches of the handlers. -/
inductive WriteBatch : List Stmt → Prop
  /-- Checks are inserted. -/
  | inserts {stmts : List Stmt} (h : ∀ stmt ∈ stmts, stmt.inserted?.isSome) : WriteBatch stmts
  /-- A new version is taken and pool rows are written under it. -/
  | pool {stmts : List Stmt} (h : ∀ stmt ∈ stmts, stmt.poolIp?.isSome) : WriteBatch (.bumpPoolRevision :: stmts)
  /-- A new version is taken and PTR results are saved under it. -/
  | ptr (pairs : List (String × PtrRow × String)) : WriteBatch (.bumpPoolRevision :: pairs.flatMap ptrPair)
  /-- Old checks are deleted and the counts of their IPs are set. -/
  | prune (ips : List String) : WriteBatch [.deleteOldChecks ips CHECK_HISTORY_RETENTION, .recount ips]
  /-- A new version is taken and marked as a reset, and pool rows are evicted under it. -/
  | evict (ips : List String) : WriteBatch [.bumpPoolRevision, .markReset, .evict ips]

/-- A batch of one of the forms leaves the checks alone, inserts some, or is a prune. -/
theorem WriteBatch.checks_cases {stmts : List Stmt} (h : WriteBatch stmts) :
    (∀ db : Database, (db.after stmts).checks = db.checks) ∨ (∀ stmt ∈ stmts, stmt.inserted?.isSome) ∨
      ∃ ips, stmts = [.deleteOldChecks ips CHECK_HISTORY_RETENTION, .recount ips] := by
  have hstays : ∀ {stmts : List Stmt}, (∀ stmt ∈ stmts, ∀ db : Database, (db.exec stmt).2.checks = db.checks) →
      ∀ db : Database, (db.after stmts).checks = db.checks := by
    intro stmts hstmts db
    refine Database.after_invariant (I := fun db' => db'.checks = db.checks) ?_ hstmts rfl
    intro db' stmt hstmt heq
    rw [hstmt db', heq]
  have hpool : ∀ stmt : Stmt, stmt.poolIp?.isSome → ∀ db : Database, (db.exec stmt).2.checks = db.checks := by
    intro stmt hstmt db
    obtain ⟨ip, hip⟩ := Option.isSome_iff_exists.1 hstmt
    rw [Database.exec_writes db hip]
    exact Database.writePool_checks _ _ _
  cases h with
  | inserts h => exact Or.inr (Or.inl h)
  | pool h =>
    refine Or.inl (hstays fun stmt hm => ?_)
    rcases List.mem_cons.1 hm with rfl | hm
    · exact fun _ => rfl
    · exact hpool stmt (h stmt hm)
  | ptr pairs =>
    refine Or.inl (hstays fun stmt hm => ?_)
    rcases List.mem_cons.1 hm with rfl | hm
    · exact fun _ => rfl
    · obtain ⟨p, -, hp⟩ := List.mem_flatMap.1 hm
      rcases List.mem_cons.1 hp with rfl | hp
      · exact fun _ => rfl
      · rw [List.mem_singleton.1 hp]
        exact hpool _ rfl
  | prune ips => exact Or.inr (Or.inr ⟨ips, rfl⟩)
  | evict ips => exact Or.inl fun _ => rfl

/-- A call of a writer: a batch of one of the forms, or one of the reads the writers make. -/
def OfWriter : Call → Prop
  | .batch stmts => WriteBatch stmts
  | .isKnownGood _ => True
  | .overLimit _ _ => True
  | .dead _ _ => True
  | _ => False

/-- A call of a task: a batch of one of the forms, a read, or a use of a cache. -/
def Allowed : Call → Prop
  | .batch stmts => WriteBatch stmts
  | _ => True

/-- A call of a reader: no batch. -/
def OfReader : Call → Prop
  | .batch _ => False
  | _ => True

/-- A reader's calls are among those that tasks make. -/
theorem OfReader.allowed {e : Call} (h : OfReader e) : Allowed e := by
  cases e <;> first | exact h.elim | trivial

/-- So are a writer's. -/
theorem OfWriter.allowed {e : Call} (h : OfWriter e) : Allowed e := by
  cases e <;> first | exact h | trivial

/-! ## Statements bound -/

/-- A step that succeeds comes after one that does. -/
theorem except_bind_ok {α β : Type} {x : Except String α} {f : α → Except String β} {b : β} (h : (x >>= f) = .ok b) :
    ∃ a, x = .ok a ∧ f a = .ok b := by
  cases x with
  | ok a => exact ⟨a, rfl, h⟩
  | error e => cases h

/-- The insert of a row that could be bound: its time is the text of its date. -/
theorem insertCheckStmt_ok {ips : List String} {cutoff : String} {row : CheckRow} {stmt : Stmt}
    (h : insertCheckStmt ips cutoff row = .ok stmt) : ∃ checkedAt scanMode, toSQLiteDateTime row.checkedAt = .ok checkedAt ∧
      row.scanMode.bind = .ok scanMode ∧ stmt = .insertCheck
        ⟨row.ip, row.ok, row.rttMs, row.reason, row.detail, checkedAt, scanMode⟩ (row.ok || decide (row.ip ∈ ips)) cutoff := by
  obtain ⟨checkedAt, hd, h⟩ := except_bind_ok h
  obtain ⟨scanMode, hm, h⟩ := except_bind_ok h
  cases h
  exact ⟨checkedAt, scanMode, hd, hm, rfl⟩

/-- The pool statement of an IP that could be bound: an upsert with its success, or the gated update of a failure. -/
theorem poolStmt_ok {cutoff : String} {u : UniqueRow} {stmt : Stmt} (h : poolStmt cutoff u = .ok stmt) :
    ∃ latestTS, toSQLiteDateTime u.latest.checkedAt = .ok latestTS ∧
      ((u.success = none ∧ stmt = .poolFailure u.latest.ip latestTS cutoff) ∨
        ∃ success successTS scanMode, u.success = some success ∧ toSQLiteDateTime success.checkedAt = .ok successTS ∧
          success.scanMode.bind = .ok scanMode ∧ stmt = .poolUpsert
            ⟨u.latest.ip, u.latest.ip.toList.contains ':', scanMode, successTS,
                success.rttMs.getD 0, latestTS, u.latest.ok⟩) := by
  obtain ⟨latestTS, hd, h⟩ := except_bind_ok h
  refine ⟨latestTS, hd, ?_⟩
  cases hs : u.success with
  | none =>
    rw [hs] at h
    cases h
    exact Or.inl ⟨rfl, rfl⟩
  | some success =>
    rw [hs] at h
    obtain ⟨successTS, hd', h⟩ := except_bind_ok h
    obtain ⟨scanMode, hm, h⟩ := except_bind_ok h
    cases h
    exact Or.inr ⟨success, successTS, scanMode, rfl, hd', hm, rfl⟩

/-- The statement for an entry of a batch writes the pool row of its IP. -/
theorem poolStmt_poolIp {cutoff : String} {u : UniqueRow} {stmt : Stmt} (h : poolStmt cutoff u = .ok stmt) :
    stmt.poolIp? = some u.latest.ip := by
  obtain ⟨_, -, ⟨-, rfl⟩ | ⟨_, _, _, -, -, -, rfl⟩⟩ := poolStmt_ok h <;> rfl

/-- The statements for a PTR result are a pair. -/
theorem ptrStmts_ok {e : PTRCacheEntry} {stmts : List Stmt} (h : ptrStmts e = .ok stmts) : ∃ p, stmts = ptrPair p := by
  obtain ⟨checkedAt, -, h⟩ := except_bind_ok h
  cases h
  exact ⟨(e.ip, _, checkedAt), rfl⟩

/-! ## The calls of each program -/

/-- A property of the batches of a chunked writer, from what its rows bind to. -/
theorem makes_inChunks {α β : Type} {P : Call → Prop} {size : Nat} (hsize : 0 < size) {bind : α → Except String β}
    {statements : List β → List Stmt} {rows : List α}
    (h : ∀ bound, (∀ b ∈ bound, ∃ a ∈ rows, bind a = .ok b) → P (.batch (statements bound))) :
    (inChunks size bind statements rows).Makes P := by
  refine Prog.makes_forM _ fun chunk hchunk => Prog.makes_ofExcept_bind fun bound hbound => ?_
  refine ⟨h bound fun b hb => ?_, fun _ => trivial⟩
  obtain ⟨a, ha, hab⟩ := exists_of_mapM_ok hbound hb
  exact ⟨a, Chunks.mem_of_mem_chunks hsize hchunk ha, hab⟩

/-- The inserts of a batch are writer's calls. -/
theorem makes_insertCheckRows (now : Int) (rows : List CheckRow) : (insertCheckRows now rows).Makes OfWriter := by
  refine makes_inChunks (by decide) fun stmts hstmts => WriteBatch.inserts fun stmt hm => ?_
  obtain ⟨row, -, hrow⟩ := hstmts stmt hm
  obtain ⟨_, _, -, -, rfl⟩ := insertCheckStmt_ok hrow
  rfl

/-- The pool update of a batch makes writer's calls. -/
theorem makes_updatePoolBatch (now : Int) (rows : List CheckRow) : (updatePoolBatch now rows).Makes OfWriter := by
  refine makes_inChunks (by decide) fun stmts hstmts => WriteBatch.pool fun stmt hm => ?_
  obtain ⟨u, -, hu⟩ := hstmts stmt hm
  rw [poolStmt_poolIp hu]
  rfl

theorem makes_deleteOld (ips : List String) : (deleteOld ips).Makes OfWriter := by
  unfold deleteOld
  split
  · exact ⟨WriteBatch.prune ips, fun _ => trivial⟩
  · trivial

theorem makes_evictDead (ips : List String) : (evictDead ips).Makes OfWriter := by
  unfold evictDead
  split
  · exact ⟨WriteBatch.evict ips, fun _ => trivial⟩
  · trivial

/-- A prune makes writer's calls. -/
theorem makes_pruneCheckHistory (ips : List String) : (pruneCheckHistory ips).Makes OfWriter := by
  refine Prog.makes_forM _ fun chunk _ => ?_
  refine ⟨trivial, fun overLimit => (makes_deleteOld overLimit).bind fun _ => ?_⟩
  exact ⟨trivial, fun dead => makes_evictDead dead⟩

theorem makes_insertRecheck (r : RecheckResult) : (insertRecheck r).Makes OfWriter := by
  refine Prog.makes_ofExcept_bind fun row _ => ⟨WriteBatch.inserts fun stmt hm => ?_, fun _ => trivial⟩
  rw [List.mem_singleton.1 hm]
  rfl

/-- The insert of a single check is a writer's call. -/
theorem makes_saveRecheckResult (r : RecheckResult) : (saveRecheckResult r).Makes OfWriter := by
  unfold saveRecheckResult
  split
  · exact makes_insertRecheck r
  · refine ⟨trivial, fun known => ?_⟩
    cases known with
    | false => trivial
    | true => exact makes_insertRecheck r

theorem makes_insertPoolRow (ip : String) (rttMs : Option Int) (ts : String) (scanMode : Bindable) :
    (insertPoolRow ip rttMs ts scanMode).Makes OfWriter := by
  refine Prog.makes_ofExcept_bind fun scanMode _ => ⟨WriteBatch.pool fun stmt hm => ?_, fun _ => trivial⟩
  rw [List.mem_singleton.1 hm]
  rfl

/-- The pool update of a single check makes writer's calls. -/
theorem makes_updatePoolForCheck (ip : String) (ok : Bool) (rttMs : Option Int) (checkedAt : JsDate) (scanMode : Bindable) :
    (updatePoolForCheck ip ok rttMs checkedAt scanMode).Makes OfWriter := by
  refine Prog.makes_ofExcept_bind fun ts _ => ⟨WriteBatch.pool fun stmt hm => ?_, fun results => ?_⟩
  · rw [List.mem_singleton.1 hm]
    rfl
  · simp only [Prog.bind]
    split
    · trivial
    · split
      · exact makes_insertPoolRow ip rttMs ts scanMode
      · trivial

/-- What holds of every batch of PTR results holds of the one that `savePTR` makes. -/
theorem makes_savePTR_of {P : Call → Prop}
    (hP : ∀ pairs : List (String × PtrRow × String), P (.batch (.bumpPoolRevision :: pairs.flatMap ptrPair)))
    (e : PTRCacheEntry) :
    (savePTR e).Makes P := by
  refine Prog.makes_ofExcept_bind fun stmts hstmts => ⟨?_, fun _ => trivial⟩
  obtain ⟨p, rfl⟩ := ptrStmts_ok hstmts
  have := hP [p]
  rwa [List.flatMap_singleton] at this

/-- Whatever holds of every batch of PTR results holds of the calls that save them. -/
theorem makes_savePTRBatch_of {P : Call → Prop}
    (hP : ∀ pairs : List (String × PtrRow × String), P (.batch (.bumpPoolRevision :: pairs.flatMap ptrPair)))
    (entries : List PTRCacheEntry) :
    (savePTRBatch entries).Makes P := by
  refine makes_inChunks (by decide) fun stmts hstmts => ?_
  have hpairs : ∃ pairs : List (String × PtrRow × String), stmts.flatten = pairs.flatMap ptrPair := by
    induction stmts with
    | nil => exact ⟨[], rfl⟩
    | cons s stmts ih =>
      obtain ⟨e, -, he⟩ := hstmts s List.mem_cons_self
      obtain ⟨p, rfl⟩ := ptrStmts_ok he
      obtain ⟨pairs, hpairs⟩ := ih fun b hb => hstmts b (List.mem_cons_of_mem _ hb)
      exact ⟨p :: pairs, by rw [List.flatten_cons, hpairs, List.flatMap_cons]⟩
  obtain ⟨pairs, hpairs⟩ := hpairs
  rw [hpairs]
  exact hP pairs

end Gwsdb.Store

namespace Gwsdb.Web

open Gwsdb.Store
open Interleave (Prog)

/-! ## What the handlers run -/

section
variable {insertAt poolAt checkedAt : Int}

/-- A body that is refused makes no call. -/
theorem handleIngest_of_error {body : IngestBody} {response : Response} (hread : readIngest body = .error response) :
    handleIngest insertAt poolAt (some body) = .ret response := by
  simp only [handleIngest, hread]
  rfl

/-- A body that is read is stored, and pruned after if it asks for maintenance. -/
theorem handleIngest_of_ok {body : IngestBody} {rows : List CheckRow} {pruneIPs : Option (List String)}
    (hread : readIngest body = .ok (rows, pruneIPs)) :
    handleIngest insertAt poolAt (some body) = ingestRows insertAt poolAt rows >>= fun _ =>
      if body.maintenance ≠ some false then pruneCheckHistory (pruneIPs.getD []) >>= fun _ => .ret (.ingested rows.length true)
      else .ret (.ingested rows.length true) := by
  simp only [handleIngest, hread]
  congr 1

/-- A text that is no address makes no call. -/
theorem handleCheck_of_invalid {raw : String} {probe : ProbeResponse} (hip : normalize raw = none) :
    handleCheck checkedAt raw probe = .ret (.text 400 "invalid ip") := by
  simp only [handleCheck, hip]
  rfl

/-- A mixed verdict is not stored. -/
theorem handleCheck_of_mixed {raw ip : String} {probe : ProbeResponse} (hip : normalize raw = some ip)
    (hmixed : probe.mixed = true) :
    handleCheck checkedAt raw probe = .ret (.probed probe.ok) := by
  simp only [handleCheck, hip, if_pos hmixed]
  rfl

/-- Any other verdict is stored as a single check. -/
theorem handleCheck_of_probed {raw ip : String} {probe : ProbeResponse} (hip : normalize raw = some ip)
    (hmixed : ¬probe.mixed = true) :
    handleCheck checkedAt raw probe =
      storeCheck ⟨ip, probe.ok, probe.rttMs, probe.reason, probe.detail, some checkedAt, .text DEFAULT_SCAN_MODE⟩ >>= fun _ =>
        .ret (.probed probe.ok) := by
  simp only [handleCheck, hip, if_neg hmixed]
  rfl

/-- A result that is refused makes no call. -/
theorem handleResult_of_error {body : ResultBody} {response : Response} (hread : readResult body = .error response) :
    handleResult (some body) = .ret response := by
  simp only [handleResult, hread]
  rfl

/-- A result that is read is stored as a single check. -/
theorem handleResult_of_ok {body : ResultBody} {r : RecheckResult} (hread : readResult body = .ok r) :
    handleResult (some body) = storeCheck r >>= fun _ => .ret .saved := by
  simp only [handleResult, hread]
  rfl

end

/-! ## The calls of the handlers -/

/-- The parts of a single check are all writer's calls. -/
theorem makes_storeCheck (r : RecheckResult) : (storeCheck r).Makes OfWriter :=
  (makes_saveRecheckResult r).bind fun _ => (makes_updatePoolForCheck _ _ _ _ _).bind fun _ => makes_pruneCheckHistory _

/-- `/ingest` makes writer's calls. -/
theorem makes_handleIngest (insertAt poolAt : Int) (body : Option IngestBody) :
    (handleIngest insertAt poolAt body).Makes OfWriter := by
  unfold handleIngest
  split
  · trivial
  split
  · trivial
  · refine Prog.Makes.bind ((makes_insertCheckRows _ _).bind fun _ => makes_updatePoolBatch _ _) fun _ => ?_
    split
    · exact (makes_pruneCheckHistory _).bind fun _ => Prog.makes_ret _ _
    · trivial

/-- `/check` makes writer's calls. -/
theorem makes_handleCheck (checkedAt : Int) (ip : String) (result : ProbeResponse) :
    (handleCheck checkedAt ip result).Makes OfWriter := by
  unfold handleCheck
  split
  · trivial
  split
  · trivial
  · exact (makes_storeCheck _).bind fun _ => trivial

/-- `/recheck/result` makes writer's calls. -/
theorem makes_handleResult (body : Option ResultBody) : (handleResult body).Makes OfWriter := by
  unfold handleResult
  split
  · trivial
  split
  · trivial
  · exact (makes_storeCheck _).bind fun _ => trivial

/-- A call of `overview`. -/
def OfOverview : Store.Call → Prop
  | .totalsMatch => True
  | .aggregates => True
  | .totalsPut _ => True
  | .lastCheck => True
  | _ => False

/-- The calls of the overview are a reader's. -/
theorem OfOverview.reader {e : Store.Call} (h : OfOverview e) : OfReader e := by
  cases e <;> first | exact h.elim | trivial

/-- The totals are read with the overview's calls. -/
theorem makes_cachedOverviewAggregates (totalsHit : Bool) : (cachedOverviewAggregates totalsHit).Makes OfOverview := by
  have hread : Prog.Makes OfOverview (do
      let totals ← perform .aggregates
      let _ ← perform (.totalsPut totals)
      return totals : Program (Nat × Nat)) := ⟨trivial, fun _ => ⟨trivial, fun _ => trivial⟩⟩
  cases totalsHit with
  | false => exact hread
  | true =>
    refine ⟨trivial, fun cached => ?_⟩
    cases cached with
    | none => exact hread
    | some totals => trivial

/-- So is the overview. -/
theorem makes_overview (totalsHit : Bool) : (overview totalsHit).Makes OfOverview :=
  (makes_cachedOverviewAggregates totalsHit).bind fun _ => ⟨trivial, fun _ => trivial⟩

/-- The changes are loaded with a reader's calls. -/
theorem makes_loadChanges (since version : Nat) (totalsHit : Bool) : (loadChanges since version totalsHit).Makes OfReader := by
  refine ⟨trivial, fun rows => ?_⟩
  refine ((makes_overview totalsHit).mono fun e h => h.reader).bind fun stats => ⟨trivial, fun now => ?_⟩
  simp only [Prog.bind]
  split
  · trivial
  · exact ⟨trivial, fun _ => trivial⟩

/-- So they are with the edge cache in front. -/
theorem makes_cachedChanges (since version : Nat) (edgeHit totalsHit : Bool) :
    (cachedChanges since version edgeHit totalsHit).Makes OfReader := by
  cases edgeHit with
  | false => exact makes_loadChanges since version totalsHit
  | true =>
    refine ⟨trivial, fun cached => ?_⟩
    cases cached with
    | none => exact makes_loadChanges since version totalsHit
    | some data => trivial

/-- `/api/pool/changes` makes a reader's calls. -/
theorem makes_handleChanges (since : Nat) (edgeHit totalsHit : Bool) :
    (handleChanges since edgeHit totalsHit).Makes OfReader := by
  refine ⟨trivial, fun version => ?_⟩
  simp only [Prog.bind]
  split
  · trivial
  refine ⟨trivial, fun resetVersion => ?_⟩
  simp only [Prog.bind]
  split
  · trivial
  split
  · trivial
  · exact makes_cachedChanges since version edgeHit totalsHit

/-- Every task but `/api/pool/changes` makes calls of writers only. -/
theorem makes_writer {t : Task} (h : ∀ since edgeHit totalsHit, t ≠ .changes since edgeHit totalsHit) :
    (start t).Makes OfWriter := by
  cases t with
  | ingest insertAt poolAt body => exact makes_handleIngest insertAt poolAt body
  | check checkedAt ip result => exact makes_handleCheck checkedAt ip result
  | result body => exact makes_handleResult body
  | prune ips => exact (makes_pruneCheckHistory ips).bind fun _ => Prog.makes_ret _ _
  | savePTR e => exact (makes_savePTR_of WriteBatch.ptr e).bind fun _ => Prog.makes_ret _ _
  | savePTRBatch entries => exact (makes_savePTRBatch_of WriteBatch.ptr entries).bind fun _ => Prog.makes_ret _ _
  | changes since edgeHit totalsHit => exact absurd rfl (h since edgeHit totalsHit)

/-- Every task makes allowed calls only. -/
theorem makes_start (t : Task) : (start t).Makes Allowed := by
  by_cases h : ∃ since edgeHit totalsHit, t = .changes since edgeHit totalsHit
  · obtain ⟨since, edgeHit, totalsHit, rfl⟩ := h
    exact (makes_handleChanges since edgeHit totalsHit).mono fun e he => he.allowed
  · refine (makes_writer fun since edgeHit totalsHit heq => h ⟨since, edgeHit, totalsHit, heq⟩).mono fun e he => he.allowed

end Gwsdb.Web
