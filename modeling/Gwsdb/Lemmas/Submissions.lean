import Gwsdb.Lemmas.Batches
import Gwsdb.Lemmas.Coalesce

/-!
# What a request submits

The successful checks a request carries, and the guards of the writers in terms of them: a row of an IP is inserted or its pool
row made only for an IP with a successful check in the request, or for one the pool knows.
-/

namespace Gwsdb.Store

open Interleave (Prog exists_of_mapM_ok)

/-- A statement makes a row for an IP outside `S` only where the pool knows the IP, but for a failure saved on its own, which is
for an IP in `F`: its guard is a read before it. -/
def Stmt.Guarded (S F : String → Prop) : Stmt → Prop
  | insertCheck row always _ => always = true → S row.ip
  | insertRecheck row => (row.ok = true → S row.ip) ∧ (row.ok = false → F row.ip)
  | poolUpsert p => S p.ip
  | poolInsert p => S p.ip
  | _ => True

/-- The statement makes no row. -/
def Stmt.Quiet : Stmt → Prop
  | insertCheck _ _ _ => False
  | insertRecheck _ => False
  | poolUpsert _ => False
  | poolInsert _ => False
  | _ => True

/-- Each statement of a call satisfies `P`. -/
def Each (P : Stmt → Prop) : Call → Prop
  | .batch stmts => ∀ stmt ∈ stmts, P stmt
  | _ => True

/-- A property of all statements of a call may be weakened. -/
theorem Each.mono {P Q : Stmt → Prop} (hPQ : ∀ stmt, P stmt → Q stmt) {e : Call} (h : Each P e) : Each Q e := by
  cases e with
  | batch stmts => exact fun stmt hm => hPQ stmt (h stmt hm)
  | _ => trivial

/-- What is so of each statement of a batch of PTR results. -/
theorem each_ptrPairs {P : Stmt → Prop} (hbump : P .bumpPoolRevision) (hsave : ∀ ip row, P (.savePTR ip row))
    (htouch : ∀ ip ts, P (.touchPTR ip ts)) (pairs : List (String × PtrRow × String)) :
    Each P (.batch (.bumpPoolRevision :: pairs.flatMap ptrPair)) := by
  intro stmt hm
  rcases List.mem_cons.1 hm with rfl | hm
  · exact hbump
  obtain ⟨p, -, hm⟩ := List.mem_flatMap.1 hm
  rcases List.mem_cons.1 hm with rfl | hm
  · exact hsave _ _
  · rw [List.mem_singleton.1 hm]
    exact htouch _ _

/-- The statements of a call are guarded. -/
abbrev Guarded (S F : String → Prop) : Call → Prop := Each (Stmt.Guarded S F)

/-- A quiet statement meets any guard. -/
theorem Stmt.Quiet.guarded {S F : String → Prop} {stmt : Stmt} (h : stmt.Quiet) : stmt.Guarded S F := by
  cases stmt <;> first | exact h.elim | trivial

/-- The guards of a statement may be widened. -/
theorem Stmt.Guarded.mono {S F S' F' : String → Prop} (hS : ∀ ip, S ip → S' ip) (hF : ∀ ip, F ip → F' ip) {stmt : Stmt}
    (h : stmt.Guarded S F) : stmt.Guarded S' F' := by
  cases stmt with
  | insertCheck row always cutoff => exact fun halways => hS _ (h halways)
  | insertRecheck row => exact ⟨fun hok => hS _ (h.1 hok), fun hok => hF _ (h.2 hok)⟩
  | poolUpsert p => exact hS _ h
  | poolInsert p => exact hS _ h
  | _ => trivial

/-! ## The guards of each writer -/

/-- The inserts of a batch are guarded by the successes of the batch. -/
theorem guarded_insertCheckRows {S F : String → Prop} {rows : List CheckRow}
    (hS : ∀ row ∈ rows, row.ok = true → S row.ip) (now : Int) :
    (insertCheckRows now rows).Makes (Guarded S F) := by
  refine makes_inChunks (by decide) fun stmts hstmts stmt hm => ?_
  obtain ⟨row, hmem, hrow⟩ := hstmts stmt hm
  obtain ⟨checkedAt, scanMode, -, -, rfl⟩ := insertCheckStmt_ok hrow
  intro halways
  rcases Bool.or_eq_true_iff.1 halways with hok | hip
  · exact hS row hmem hok
  · obtain ⟨s, hs, heq⟩ := List.mem_map.1 (of_decide_eq_true hip)
    have hsuccess := hS s (List.mem_filter.1 hs).1 (List.mem_filter.1 hs).2
    rwa [heq] at hsuccess

/-- So is its pool update. -/
theorem guarded_updatePoolBatch {S F : String → Prop} {rows : List CheckRow}
    (hS : ∀ row ∈ rows, row.ok = true → S row.ip) (now : Int) :
    (updatePoolBatch now rows).Makes (Guarded S F) := by
  refine makes_inChunks (by decide) fun stmts hstmts stmt hm => ?_
  rcases List.mem_cons.1 hm with rfl | hm
  · trivial
  obtain ⟨u, hu, hstmt⟩ := hstmts stmt hm
  obtain ⟨latestTS, -, ⟨-, rfl⟩ | ⟨s, successTS, scanMode, hs, -, -, rfl⟩⟩ := poolStmt_ok hstmt
  · trivial
  · obtain ⟨hmem, hok, hip⟩ := success_of_mem_uniqueRows hu hs
    have hsuccess := hS s hmem hok
    rwa [hip] at hsuccess

/-- The statements of a prune. -/
def Stmt.Prunes : Stmt → Prop
  | bumpPoolRevision => True
  | markReset => True
  | deleteOldChecks _ _ => True
  | recount _ => True
  | evict _ => True
  | _ => False

theorem prunes_deleteOld (ips : List String) : (deleteOld ips).Makes (Each Stmt.Prunes) := by
  unfold deleteOld
  split
  · refine ⟨fun stmt hm => ?_, fun _ => trivial⟩
    rcases List.mem_cons.1 hm with rfl | hm
    · trivial
    · rw [List.mem_singleton.1 hm]
      trivial
  · trivial

theorem prunes_evictDead (ips : List String) : (evictDead ips).Makes (Each Stmt.Prunes) := by
  unfold evictDead
  split
  · refine ⟨fun stmt hm => ?_, fun _ => trivial⟩
    rcases List.mem_cons.1 hm with rfl | hm
    · trivial
    rcases List.mem_cons.1 hm with rfl | hm
    · trivial
    · rw [List.mem_singleton.1 hm]
      trivial
  · trivial

/-- A prune only deletes checks, recounts and evicts. -/
theorem prunes_pruneCheckHistory (ips : List String) : (pruneCheckHistory ips).Makes (Each Stmt.Prunes) :=
  Prog.makes_forM _ fun _ _ =>
    ⟨trivial, fun overLimit => (prunes_deleteOld overLimit).bind fun _ => ⟨trivial, fun dead => prunes_evictDead dead⟩⟩

/-- A statement of a prune is quiet. -/
theorem Stmt.Prunes.quiet {stmt : Stmt} (h : stmt.Prunes) : stmt.Quiet := by
  cases stmt <;> first | exact h.elim | trivial

/-- A prune makes no row. -/
theorem quiet_pruneCheckHistory (ips : List String) : (pruneCheckHistory ips).Makes (Each Stmt.Quiet) :=
  (prunes_pruneCheckHistory ips).mono fun _ h => h.mono fun _ => Stmt.Prunes.quiet

/-- So a prune meets any guard. -/
theorem guarded_pruneCheckHistory (S F : String → Prop) (ips : List String) : (pruneCheckHistory ips).Makes (Guarded S F) :=
  (quiet_pruneCheckHistory ips).mono fun _ h => h.mono fun _ => Stmt.Quiet.guarded

/-- The row of a single check has its IP, its verdict and its time. -/
theorem recheckRow_ok {r : RecheckResult} {row : NewCheck} (h : recheckRow r = .ok row) :
    row.ip = r.ip ∧ row.ok = r.ok ∧ toSQLiteDateTime r.checkedAt = .ok row.checkedAt := by
  obtain ⟨checkedAt, hd, h⟩ := except_bind_ok h
  obtain ⟨scanMode, -, h⟩ := except_bind_ok h
  split at h
  · cases h
    exact ⟨rfl, (‹r.ok = true›).symm, hd⟩
  · cases h
    exact ⟨rfl, (Bool.eq_false_iff.2 ‹_›).symm, hd⟩

/-- The insert of a single check is guarded by its verdict. -/
theorem guarded_insertRecheck {S F : String → Prop} {r : RecheckResult} (hS : r.ok = true → S r.ip) (hF : r.ok = false → F r.ip) :
    (insertRecheck r).Makes (Guarded S F) := by
  refine Prog.makes_ofExcept_bind fun row hrow => ⟨fun stmt hm => ?_, fun _ => trivial⟩
  obtain ⟨hip, hok, -⟩ := recheckRow_ok hrow
  rw [List.mem_singleton.1 hm]
  refine ⟨fun h => ?_, fun h => ?_⟩
  · rw [hip]
    exact hS (hok ▸ h)
  · rw [hip]
    exact hF (hok ▸ h)

/-- So is the insert that `saveRecheckResult` makes. -/
theorem guarded_saveRecheckResult {S F : String → Prop} {r : RecheckResult} (hS : r.ok = true → S r.ip)
    (hF : r.ok = false → F r.ip) :
    (saveRecheckResult r).Makes (Guarded S F) := by
  unfold saveRecheckResult
  split
  · exact guarded_insertRecheck hS hF
  · refine ⟨trivial, fun known => ?_⟩
    cases known with
    | false => trivial
    | true => exact guarded_insertRecheck hS hF

/-- What holds of the update of a check, and for a success of the insert, holds of each statement of its pool update. -/
theorem each_updatePoolForCheck {P : Stmt → Prop} {ip : String} {ok : Bool} {rttMs : Option Int} {checkedAt : JsDate}
    {scanMode : Bindable} (hbump : P .bumpPoolRevision)
    (hcheck : ∀ ts, toSQLiteDateTime checkedAt = .ok ts → P (.poolCheck ip ts ok (rttMs.getD 0)))
    (hinsert : ok = true → ∀ ts mode, toSQLiteDateTime checkedAt = .ok ts →
      P (.poolInsert ⟨ip, ip.toList.contains ':', mode, ts, rttMs.getD 0, ts, true⟩)) :
    (updatePoolForCheck ip ok rttMs checkedAt scanMode).Makes (Each P) := by
  have htwo : ∀ stmt, P stmt → Each P (.batch [.bumpPoolRevision, stmt]) := fun stmt hstmt =>
    List.forall_mem_cons.2 ⟨hbump, List.forall_mem_singleton.2 hstmt⟩
  refine Prog.makes_ofExcept_bind fun ts hts => ⟨htwo _ (hcheck ts hts), fun results => ?_⟩
  simp only [Prog.bind]
  split
  · trivial
  split
  · rename_i hcond
    exact Prog.makes_ofExcept_bind fun mode _ => ⟨htwo _ (hinsert hcond.2 ts mode hts), fun _ => trivial⟩
  · trivial

/-- Its pool update is guarded by its success. -/
theorem guarded_updatePoolForCheck {S F : String → Prop} {ip : String} {ok : Bool} (hS : ok = true → S ip) (rttMs : Option Int)
    (checkedAt : JsDate) (scanMode : Bindable) : (updatePoolForCheck ip ok rttMs checkedAt scanMode).Makes (Guarded S F) :=
  each_updatePoolForCheck trivial (fun _ _ => trivial) fun hok _ _ _ => hS hok

end Gwsdb.Store

namespace Gwsdb.Web

open Gwsdb.Store
open Interleave (Prog)
open Interleave.Prog (After Event)

/-- A task carries a successful check of an IP. -/
def Task.Submits : Task → String → Prop
  | .ingest _ _ (some body), ip => ∃ c ∈ body.checks.getD [], c.ok = true ∧ c.ip.bind normalize = some ip
  | .check _ raw probe, ip => probe.ok = true ∧ normalize raw = some ip
  | .result (some body), ip => body.ok = some true ∧ normalize body.ip = some ip
  | _, _ => False

/-- The rows of a body that is accepted come from its checks. -/
theorem readIngest_ok {body : IngestBody} {rows : List CheckRow} {pruneIPs : Option (List String)}
    (h : readIngest body = .ok (rows, pruneIPs)) :
    ∃ checks, body.checks = some checks ∧ rows = coalesceCheckRows (checks.filterMap toCheckRow) := by
  unfold readIngest at h
  split at h
  · cases h
  · rename_i checks hchecks
    split at h
    · cases h
    split at h
    · cases h
    simp only at h
    split at h
    · cases h
    · cases h
      exact ⟨checks, hchecks, rfl⟩

/-- A reachable row of a body that is read is submitted by its task. -/
theorem readIngest_submits {insertAt poolAt : Int} {body : IngestBody} {rows : List CheckRow} {pruneIPs : Option (List String)}
    (h : readIngest body = .ok (rows, pruneIPs)) {row : CheckRow} (hrow : row ∈ rows) (hok : row.ok = true) :
    (Task.ingest insertAt poolAt (some body)).Submits row.ip := by
  obtain ⟨checks, hchecks, rfl⟩ := readIngest_ok h
  obtain ⟨c, hc, heq⟩ := List.mem_filterMap.1 (mem_coalesceCheckRows hrow)
  obtain ⟨ip, hip, rfl⟩ := Option.map_eq_some_iff.1 heq
  refine ⟨c, ?_, hok, hip⟩
  rw [hchecks]
  exact hc

/-- The check of a body that is accepted. -/
theorem readResult_ok {body : ResultBody} {r : RecheckResult} (h : readResult body = .ok r) :
    normalize body.ip = some r.ip ∧ body.ok = some r.ok := by
  unfold readResult at h
  split at h
  · rename_i ok checkedAt hok _
    split at h
    · cases h
    split at h
    · cases h
    · rename_i ip hip
      split at h
      · cases h
      · cases h
        exact ⟨hip, hok⟩
  · cases h

/-- A single check is guarded by its verdict in all its parts. -/
theorem guarded_storeCheck {S F : String → Prop} {r : RecheckResult} (hS : r.ok = true → S r.ip) (hF : r.ok = false → F r.ip) :
    (storeCheck r).Makes (Guarded S F) :=
  (guarded_saveRecheckResult hS hF).bind fun _ =>
    (guarded_updatePoolForCheck hS _ _ _).bind fun _ => guarded_pruneCheckHistory S F _

/-! ## Kinds of tasks -/

/-- A task that stores a single check. -/
structure Stores (t : Task) (r : RecheckResult) : Prop where
  starts : ∃ response, start t = (storeCheck r >>= fun _ => .ret response)
  submits : r.ok = true → t.Submits r.ip

/-- A task that stores the rows of a body and may prune afterwards. -/
structure Ingests (t : Task) (insertAt poolAt : Int) (rows : List CheckRow) (rest : Program Response) : Prop where
  starts : start t = (ingestRows insertAt poolAt rows >>= fun _ => rest)
  submits : ∀ row ∈ rows, row.ok = true → t.Submits row.ip
  coalesced : ∃ checks, rows = coalesceCheckRows checks
  rest_eq : (∃ response, rest = .ret response) ∨ ∃ ips response, rest = (pruneCheckHistory ips >>= fun _ => .ret response)

/-- What a batch does after its rows is quiet. -/
theorem Ingests.quiet_rest {t : Task} {insertAt poolAt : Int} {rows : List CheckRow} {rest : Program Response}
    (h : Ingests t insertAt poolAt rows rest) : rest.Makes (Each Stmt.Quiet) := by
  rcases h.rest_eq with ⟨response, rfl⟩ | ⟨ips, response, rfl⟩
  · trivial
  · exact (quiet_pruneCheckHistory ips).bind fun _ => Prog.makes_ret _ _

/-- The PTR saves make no row. -/
theorem quiet_ptrPairs (pairs : List (String × PtrRow × String)) :
    Each Stmt.Quiet (.batch (.bumpPoolRevision :: pairs.flatMap ptrPair)) :=
  each_ptrPairs trivial (fun _ _ => trivial) (fun _ _ => trivial) pairs

/-- A task stores a check, stores the rows of a body, or makes no row for any IP. -/
theorem task_cases (t : Task) : (∃ r, Stores t r) ∨ (∃ insertAt poolAt rows rest, Ingests t insertAt poolAt rows rest) ∨
    (start t).Makes (Each Stmt.Quiet) := by
  cases t with
  | ingest insertAt poolAt body =>
    cases body with
    | none => exact Or.inr (Or.inr trivial)
    | some body =>
      have hstart : start (.ingest insertAt poolAt (some body)) = handleIngest insertAt poolAt (some body) := rfl
      cases hread : readIngest body with
      | error response =>
        rw [hstart, handleIngest_of_error hread]
        exact Or.inr (Or.inr trivial)
      | ok read =>
        obtain ⟨rows, pruneIPs⟩ := read
        obtain ⟨checks, -, hrows⟩ := readIngest_ok hread
        refine Or.inr (Or.inl ⟨insertAt, poolAt, rows, _, hstart.trans (handleIngest_of_ok hread),
          fun row hrow hok => readIngest_submits hread hrow hok, ⟨_, hrows⟩, ?_⟩)
        split
        · exact Or.inr ⟨_, _, rfl⟩
        · exact Or.inl ⟨_, rfl⟩
  | check checkedAt raw probe =>
    have hstart : start (.check checkedAt raw probe) = handleCheck checkedAt raw probe := rfl
    cases hip : normalize raw with
    | none =>
      rw [hstart, handleCheck_of_invalid hip]
      exact Or.inr (Or.inr trivial)
    | some ip =>
      by_cases hmixed : probe.mixed = true
      · rw [hstart, handleCheck_of_mixed hip hmixed]
        exact Or.inr (Or.inr trivial)
      · exact Or.inl ⟨_, ⟨_, hstart.trans (handleCheck_of_probed hip hmixed)⟩, fun hok => ⟨hok, hip⟩⟩
  | result body =>
    cases body with
    | none => exact Or.inr (Or.inr trivial)
    | some body =>
      have hstart : start (.result (some body)) = handleResult (some body) := rfl
      cases hread : readResult body with
      | error response =>
        rw [hstart, handleResult_of_error hread]
        exact Or.inr (Or.inr trivial)
      | ok r =>
        obtain ⟨hip, hok⟩ := readResult_ok hread
        exact Or.inl ⟨r, ⟨_, hstart.trans (handleResult_of_ok hread)⟩, fun h => ⟨h ▸ hok, hip⟩⟩
  | prune ips => exact Or.inr (Or.inr ((quiet_pruneCheckHistory ips).bind fun _ => Prog.makes_ret _ _))
  | savePTR e => exact Or.inr (Or.inr ((makes_savePTR_of quiet_ptrPairs e).bind fun _ => Prog.makes_ret _ _))
  | savePTRBatch entries => exact Or.inr (Or.inr
    ((makes_savePTRBatch_of quiet_ptrPairs entries).bind fun _ => Prog.makes_ret _ _))
  | changes since edgeHit totalsHit =>
    refine Or.inr (Or.inr ((makes_handleChanges since edgeHit totalsHit).mono fun e he => ?_))
    cases e <;> first | exact he.elim | trivial

/-- Every task is guarded by the successful checks it carries. -/
theorem guarded_start (t : Task) : (start t).Makes (Guarded t.Submits fun _ => True) := by
  rcases task_cases t with ⟨r, hstores⟩ | ⟨insertAt, poolAt, rows, rest, hingests⟩ | hquiet
  · obtain ⟨response, hstart⟩ := hstores.starts
    rw [hstart]
    exact (guarded_storeCheck hstores.submits fun _ => trivial).bind fun _ => Prog.makes_ret _ _
  · rw [hingests.starts]
    exact ((guarded_insertCheckRows hingests.submits _).bind fun _ => guarded_updatePoolBatch hingests.submits _).bind fun _ =>
      hingests.quiet_rest.mono fun _ h => h.mono fun _ => Stmt.Quiet.guarded
  · exact hquiet.mono fun _ h => h.mono fun _ => Stmt.Quiet.guarded

/-! ## Failures saved on their own -/

/-- `saveRecheckResult` saves a failure after it read that the pool has the IP. -/
theorem known_of_saveRecheckResult {r : RecheckResult} {es : List (Event Store.Call Reply Store.Site)} {stmts : List Stmt}
    {k : List Nat → Program Unit} (h : After (saveRecheckResult r) es (.call (.batch stmts) k)) {row : NewCheck}
    (hm : .insertRecheck row ∈ stmts) (hok : row.ok = false) :
    ∃ s, (⟨s, .isKnownGood row.ip, true⟩ : Event Store.Call Reply Store.Site) ∈ es := by
  have hip := h.makes (guarded_saveRecheckResult (S := fun _ => True) (F := fun ip => r.ok = false ∧ ip = r.ip)
    (fun _ => trivial) fun hr => ⟨hr, rfl⟩)
  obtain ⟨hr, hrow⟩ := (hip.2.1 _ hm).2 hok
  rw [hrow]
  unfold saveRecheckResult at h
  rw [if_neg (by simp [hr])] at h
  rcases After.of_call h with ⟨-, hcall⟩ | ⟨s, known, es', rfl, h₁⟩
  · cases hcall
  · cases known with
    | false =>
      obtain ⟨-, hret⟩ := After.of_ret h₁
      cases hret
    | true => exact ⟨s, List.mem_cons_self⟩

/-- A failure about to be saved on its own is one of an IP that was read to be in the pool. -/
theorem known_before {t : Task} {es : List (Event Store.Call Reply Store.Site)} {stmts : List Stmt}
    {k : List Nat → Program Response}
    (h : After (start t) es (.call (.batch stmts) k)) {row : NewCheck} (hm : .insertRecheck row ∈ stmts) (hok : row.ok = false) :
    ∃ s, (⟨s, .isKnownGood row.ip, true⟩ : Event Store.Call Reply Store.Site) ∈ es := by
  have hnone : ∀ {q : Program Response} {es : List (Event Store.Call Reply Store.Site)},
    q.Makes (Guarded (fun _ => True) (fun _ => False)) →
      ¬After q es (.call (.batch stmts) k) := by
    intro q es hq hafter
    exact ((hafter.makes hq).2.1 _ hm).2 hok
  rcases task_cases t with ⟨r, hstores⟩ | ⟨insertAt, poolAt, rows, rest, hingests⟩ | hquiet
  · obtain ⟨response, hstart⟩ := hstores.starts
    have hrest : (updatePoolForCheck r.ip r.ok r.rttMs r.checkedAt r.scanMode >>= fun _ => pruneCheckHistory [r.ip] >>=
        fun _ => .ret response).Makes (Guarded (fun _ => True) (fun _ => False)) :=
      (guarded_updatePoolForCheck (fun _ => trivial) _ _ _).bind fun _ =>
        (guarded_pruneCheckHistory _ _ _).bind fun _ => Prog.makes_ret _ _
    rw [hstart, storeCheck, Prog.bind_assoc] at h
    rcases After.bind_cases h with ⟨p, hp, heq⟩ | ⟨a, es₁, es₂, -, -, h₂⟩
    · cases p with
      | ret a =>
        rw [Prog.ret_bind, Prog.bind_assoc] at heq
        rw [← heq] at hrest
        exact ((hrest.1 _ hm).2 hok).elim
      | fail e => cases heq
      | call e k' =>
        rw [Prog.call_bind] at heq
        injection heq with he hk
        subst he
        exact known_of_saveRecheckResult hp hm hok
    · rw [Prog.bind_assoc] at h₂
      exact absurd h₂ (hnone hrest)
  · rw [hingests.starts] at h
    have hS : ∀ row ∈ rows, row.ok = true → (fun _ : String => True) row.ip := fun _ _ _ => trivial
    exact absurd h (hnone (((guarded_insertCheckRows hS _).bind fun _ => guarded_updatePoolBatch hS _).bind fun _ =>
      hingests.quiet_rest.mono fun _ h => h.mono fun _ => Stmt.Quiet.guarded))
  · exact absurd h (hnone (hquiet.mono fun _ h => h.mono fun _ => Stmt.Quiet.guarded))

end Gwsdb.Web
