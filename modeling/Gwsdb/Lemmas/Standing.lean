import Gwsdb.Lemmas.Ingest
import Gwsdb.Lemmas.Prune

/-!
# The writers and the standing of an IP

Each writer, run alone to its end, changes the standing of each IP by itself: a prune (`run_pruneCheckHistory`), a single check
(`run_saveRecheckResult`, `run_updatePoolForCheck`), a batch.
-/

namespace Gwsdb.Store

open Chunks (chunks)
open Interleave (Prog)
open Keyed (Table)

/-! ## A check among the others -/

namespace Standing

/-- The greatest id among the checks. -/
def lastId (st : Standing) : Nat := st.checks.foldl (fun m r => max m r.id) 0

/-- The last id is bounded by a bound of all ids. -/
theorem lastId_le_iff {st : Standing} {n : Nat} : st.lastId ≤ n ↔ ∀ r ∈ st.checks, r.id ≤ n := by
  rw [lastId, foldl_max_id_le]
  simp

/-- A check newer than the others comes first. -/
theorem insert_newest {checks : List IpCheck} {r : IpCheck}
    (h : ∀ r' ∈ checks, r'.checkedAt < r.checkedAt) (row : Option PoolSummary) :
    (mk checks row).insert r = ⟨r :: checks, row⟩ := by
  have hfirst : ∀ r' ∈ checks, r.Newer r' := fun r' hr' => Or.inl (h r' hr')
  rw [insert, if_neg, Ranked.orderedInsert_first hfirst]
  rintro ⟨r', hr', heq⟩
  exact absurd (h r' hr') (heq ▸ lt_irrefl _)

/-- A check older than the others comes last. -/
theorem insert_oldest {checks : List IpCheck} {r : IpCheck}
    (h : ∀ r' ∈ checks, r.checkedAt < r'.checkedAt) (row : Option PoolSummary) :
    (mk checks row).insert r = ⟨checks ++ [r], row⟩ := by
  have hlast : ∀ r' ∈ checks, ¬r.Newer r' := by
    rintro r' hr' (hlt | ⟨heq, -⟩)
    · exact lt_asymm hlt (h r' hr')
    · exact absurd (h r' hr') (heq ▸ lt_irrefl _)
  rw [insert, if_neg, Ranked.orderedInsert_last hlast]
  rintro ⟨r', hr', heq⟩
  exact absurd (h r' hr') (heq ▸ lt_irrefl _)

/-- No check is after a time. -/
theorem countAfter_eq_zero {checks : List IpCheck} {t : String} (h : ∀ r ∈ checks, ¬t < r.checkedAt) (row : Option PoolSummary) :
    (mk checks row).countAfter (some t) = 0 :=
  List.countP_eq_zero.2 fun r hr => by simpa using h r hr

/-- All checks are after a time. -/
theorem countAfter_eq_length {checks : List IpCheck} {t : String} (h : ∀ r ∈ checks, t < r.checkedAt) (row : Option PoolSummary) :
    (mk checks row).countAfter (some t) = checks.length :=
  List.countP_eq_length.2 fun r hr => by simpa using h r hr

/-- The checks after a time are counted in two parts. -/
theorem countAfter_append (l₁ l₂ : List IpCheck) (at' : Option String) (row : Option PoolSummary) :
    (mk (l₁ ++ l₂) row).countAfter at' = (mk l₁ row).countAfter at' + (mk l₂ row).countAfter at' :=
  List.countP_append

end Standing

/-- In a database of one IP the greatest id of the table is that of the IP. -/
theorem Database.maxId_of_alone {db : Database} {ip : String} (h : ∀ k, k ≠ ip → (db.standing k).checks = []) :
    db.checks.maxId = (db.standing ip).lastId := by
  refine le_antisymm ?_ (Standing.lastId_le_iff.2 fun r hr => db.checks.le_maxId r (IpChecks.mem_newestFirst.1 hr).1)
  unfold IpChecks.maxId
  cases hlast : db.checks.rows.getLast? with
  | none => exact Nat.zero_le _
  | some r =>
    have hmem : r ∈ (db.standing r.ip).checks := IpChecks.mem_newestFirst.2 ⟨List.mem_of_getLast? hlast, rfl⟩
    have hip : r.ip = ip := by
      by_contra hne
      rw [h r.ip hne] at hmem
      cases hmem
    exact Standing.lastId_le_iff.1 (le_refl _) r (hip ▸ hmem)

/-- The version of a history is the greatest id of the standing. -/
theorem Database.ipHistoryVersion_eq (db : Database) (ip : String) : db.ipHistoryVersion ip = (db.standing ip).lastId := by
  have hle : ∀ n, db.ipHistoryVersion ip ≤ n ↔ (db.standing ip).lastId ≤ n := by
    intro n
    rw [ipHistoryVersion_le_iff, Standing.lastId_le_iff]
    simp only [Database.standing, IpChecks.mem_newestFirst, IpChecks.mem_of]
  exact le_antisymm ((hle _).2 (le_refl _)) ((hle _).1 (le_refl _))

/-! ## Single checks -/

namespace Database

/-- A standing has a time where the table has a check with it. -/
theorem hasTime_standing {db : Database} {ip checkedAt : String} :
    (db.standing ip).HasTime checkedAt ↔ ∃ r ∈ db.checks.rows, r.ip = ip ∧ r.checkedAt = checkedAt := by
  unfold Standing.HasTime standing
  simp only [IpChecks.mem_newestFirst, and_assoc]

/-- An insert, seen from one IP. -/
theorem standing_insert (db : Database) (row : NewCheck) (ip : String) :
    ({ db with checks := db.checks.insert row } : Database).standing ip =
      if row.ip = ip then (db.standing ip).insert (db.checks.next row) else db.standing ip := by
  unfold Standing.insert standing
  by_cases hkey : db.checks.HasKey row
  · rw [IpChecks.insert_of_hasKey hkey]
    split
    · rename_i hip
      subst hip
      exact (if_pos (hasTime_standing.2 hkey)).symm
    · rfl
  · rw [IpChecks.insert_of_not_hasKey hkey]
    split
    · rename_i hip
      subst hip
      rw [IpChecks.newestFirst_append hkey]
      exact (if_neg fun h => hkey (hasTime_standing.1 h)).symm
    · rename_i hip
      rw [IpChecks.newestFirst_append_ne hkey hip]

/-- The count of an IP's checks is the length of its history. -/
theorem historyCount_eq (db : Database) (ip : String) : db.historyCount ip = (db.standing ip).checks.length :=
  (db.checks.length_newestFirst ip).symm

/-- A report counts the checks after the time that it replaces. -/
theorem historyCountIncr_eq (db : Database) (ip : String) (row : PoolRow) :
    db.historyCountIncr ip row = row.historyCount + (db.standing ip).countAfter row.lastCheckedAt := by
  unfold historyCountIncr Standing.countAfter standing IpChecks.newestFirst
  rw [(List.perm_insertionSort _ _).countP_eq]

/-- A write of a pool row, seen from one IP. -/
theorem standing_writePool (db : Database) (ip : String) (f : Option PoolRow → Option PoolRow) (k : String) :
    (db.writePool ip f).2.standing k =
      if k = ip then ⟨db.checks.newestFirst ip, ((f (db.pool.get? ip)).or (db.pool.get? ip)).map PoolRow.summary⟩
      else db.standing k := by
  unfold standing
  rw [writePool_checks, get?_writePool]
  split
  · rename_i hk
    subst hk
    cases f (db.pool.get? k) <;> rfl
  · rfl

end Database

/-! ## Reports -/

/-- What a success written to the pool reports. -/
def PoolSuccess.toReport (p : PoolSuccess) : Report := ⟨some p.successTS, p.latestTS, p.latestOk⟩

/-- What a single check reports. -/
def checkReport (ok : Bool) (ts : String) : Report := ⟨if ok then some ts else none, ts, ok⟩

namespace Database

/-- The upsert of a batch is the report of its success. -/
theorem standing_poolUpsert (db : Database) (p : PoolSuccess) (k : String) :
    (db.exec (.poolUpsert p)).2.standing k = if k = p.ip then (db.standing p.ip).report p.toReport else db.standing k := by
  have hwrite := db.standing_writePool p.ip (db.rewrite (.poolUpsert p)) k
  rw [← exec_writes db (rfl : (Stmt.poolUpsert p).poolIp? = some p.ip)] at hwrite
  rw [hwrite]
  split
  · cases hrow : db.pool.get? p.ip <;>
      simp [Standing.report, standing, rewrite, PoolSuccess.upsert, PoolSuccess.toReport, PoolRow.summary, hrow, historyCount_eq,
        historyCountIncr_eq]
  · rfl

/-- The insert of a single check is the report of it, where the pool has no row. -/
theorem standing_poolInsert (db : Database) (p : PoolSuccess) (hrow : db.pool.get? p.ip = none) (k : String) :
    (db.exec (.poolInsert p)).2.standing k = if k = p.ip then (db.standing p.ip).report p.toReport else db.standing k := by
  have hwrite := db.standing_writePool p.ip (db.rewrite (.poolInsert p)) k
  rw [← exec_writes db (rfl : (Stmt.poolInsert p).poolIp? = some p.ip)] at hwrite
  rw [hwrite]
  split
  · simp [Standing.report, standing, rewrite, PoolSuccess.upsert, PoolSuccess.toReport, PoolRow.summary, hrow, historyCount_eq]
  · rfl

/-- The update of a single check is the report of it, where the pool has a row. -/
theorem standing_poolCheck (db : Database) {ip : String} {row : PoolRow}
    (hrow : db.pool.get? ip = some row) (ts : String) (ok : Bool)
    (rttMs : Int) (k : String) : (db.exec (.poolCheck ip ts ok rttMs)).2.standing k =
      if k = ip then (db.standing ip).report (checkReport ok ts) else db.standing k := by
  have hwrite := db.standing_writePool ip (db.rewrite (.poolCheck ip ts ok rttMs)) k
  rw [← exec_writes db (rfl : (Stmt.poolCheck ip ts ok rttMs).poolIp? = some ip)] at hwrite
  rw [hwrite]
  split
  · cases ok <;> simp [Standing.report, standing, rewrite, checkReport, PoolRow.summary, hrow, historyCountIncr_eq]
  · rfl

/-- Without a pool row a single check changes none. -/
theorem standing_poolCheck_none (db : Database) {ip : String} (hrow : db.pool.get? ip = none) (ts : String) (ok : Bool)
    (rttMs : Int) (k : String) : (db.exec (.poolCheck ip ts ok rttMs)).2.standing k = db.standing k := by
  have hwrite := db.standing_writePool ip (db.rewrite (.poolCheck ip ts ok rttMs)) k
  rw [← exec_writes db (rfl : (Stmt.poolCheck ip ts ok rttMs).poolIp? = some ip)] at hwrite
  rw [hwrite]
  split
  · rename_i hk
    subst hk
    simp [standing, rewrite, hrow]
  · rfl

/-- The update of a failure in a batch is the report of it, where the gate is open. -/
theorem standing_poolFailure (db : Database) (ip ts cutoff : String) (k : String) :
    (db.exec (.poolFailure ip ts cutoff)).2.standing k =
      if k = ip ∧ (db.pool.get? ip).any (·.failureGate cutoff) then (db.standing ip).report
          ⟨none, ts, false⟩ else db.standing k := by
  have hwrite := db.standing_writePool ip (db.rewrite (.poolFailure ip ts cutoff)) k
  rw [← exec_writes db (rfl : (Stmt.poolFailure ip ts cutoff).poolIp? = some ip)] at hwrite
  rw [hwrite]
  by_cases hk : k = ip
  · subst hk
    cases hrow : db.pool.get? k with
    | none => simp [standing, rewrite, hrow]
    | some row =>
      cases hgate : row.failureGate cutoff <;>
        simp [Standing.report, standing, rewrite, PoolRow.summary, Option.filter_some, hrow, hgate, historyCountIncr_eq]
  · rw [if_neg hk, if_neg fun h => hk h.1]

end Database

/-! ## Requests with one check -/

/-- `saveRecheckResult` run alone to its end: the check comes in, but for a failure of an IP the pool does not know. -/
theorem run_saveRecheckResult {r : RecheckResult} {s s' : Site} {u : Unit} (h : (saveRecheckResult r).run serve s = (.ok u, s')) :
    (r.ok = false ∧ s.db.pool.get? r.ip = none ∧ s' = s) ∨
      (r.ok = true ∨ (s.db.pool.get? r.ip).isSome) ∧ ∃ row, recheckRow r = .ok row ∧
        s' = { s with db := { s.db with checks := s.db.checks.insert row } } := by
  have hinsert : ∀ {s s' : Site} {u : Unit}, (insertRecheck r).run serve s = (.ok u, s') → ∃ row, recheckRow r = .ok row ∧
      s' = { s with db := { s.db with checks := s.db.checks.insert row } } := by
    intro s s' u h
    obtain ⟨row, s₁, h₁, h₂⟩ := Prog.run_bind_ok h
    obtain ⟨hrow, rfl⟩ := Prog.run_ofExcept_ok h₁
    cases h₂
    exact ⟨row, hrow, rfl⟩
  unfold saveRecheckResult at h
  split at h
  · rename_i hok
    exact Or.inr ⟨Or.inl hok, hinsert h⟩
  · rename_i hok
    change (if s.db.isKnownGood r.ip then insertRecheck r else pure ()).run serve s = (.ok u, s') at h
    split at h
    · rename_i hknown
      exact Or.inr ⟨Or.inr hknown, hinsert h⟩
    · rename_i hknown
      cases h
      exact Or.inl ⟨Bool.eq_false_iff.2 hok, Option.not_isSome_iff_eq_none.1 hknown, rfl⟩

/-- `insertPoolRow` run alone to its end. -/
theorem run_insertPoolRow {ip : String} {rttMs : Option Int} {ts : String} {scanMode : Bindable} {s s' : Site} {u : Unit}
    (h : (insertPoolRow ip rttMs ts scanMode).run serve s = (.ok u, s')) (hrow : s.db.pool.get? ip = none) (k : String) :
    s'.db.standing k = if k = ip then (s.db.standing ip).report (checkReport true ts) else s.db.standing k := by
  obtain ⟨mode, s₁, h₁, h₂⟩ := Prog.run_bind_ok h
  obtain ⟨-, rfl⟩ := Prog.run_ofExcept_ok h₁
  cases h₂
  rw [serve_batch, Database.after_cons, Database.after_cons, Database.after_nil]
  exact Database.standing_poolInsert (s₁.db.exec .bumpPoolRevision).2 ⟨ip, _, _, ts, _, ts, true⟩ hrow k

/-- `updatePoolForCheck` run alone to its end: the pool row of the IP takes the report of the check. -/
theorem run_updatePoolForCheck {ip : String} {ok : Bool} {rttMs : Option Int} {checkedAt : JsDate}
    {scanMode : Bindable} {s s' : Site}
    {u : Unit} (h : (updatePoolForCheck ip ok rttMs checkedAt scanMode).run serve s = (.ok u, s')) :
    ∃ ts, toSQLiteDateTime checkedAt = .ok ts ∧
      ∀ k, s'.db.standing k = if k = ip then (s.db.standing ip).report (checkReport ok ts) else s.db.standing k := by
  obtain ⟨ts, s₁, h₁, h₂⟩ := Prog.run_bind_ok h
  obtain ⟨hts, hs⟩ := Prog.run_ofExcept_ok h₁
  refine ⟨ts, hts, ?_⟩
  rw [hs] at h₂
  change ((s.db.batch [.bumpPoolRevision, .poolCheck ip ts ok (rttMs.getD 0)]).1[1]?.elim (Prog.fail "pool update result missing")
    fun changes => if changes = 0 ∧ ok then insertPoolRow ip rttMs ts scanMode else pure () : Program Unit).run serve
      { s with db := (s.db.batch [.bumpPoolRevision, .poolCheck ip ts ok (rttMs.getD 0)]).2 } = (.ok u, s') at h₂
  rw [Database.batch_poolCheck, Database.batch_snd, Database.after_cons, Database.after_cons, Database.after_nil] at h₂
  cases hrow : s.db.pool.get? ip with
  | some row =>
    rw [hrow] at h₂
    cases h₂
    exact fun k => Database.standing_poolCheck (s.db.exec .bumpPoolRevision).2 hrow ts ok (rttMs.getD 0) k
  | none =>
    rw [hrow] at h₂
    have hsame : ∀ k, (((s.db.exec .bumpPoolRevision).2.exec (.poolCheck ip ts ok (rttMs.getD 0))).2).standing k =
        s.db.standing k :=
      Database.standing_poolCheck_none (s.db.exec .bumpPoolRevision).2 hrow ts ok (rttMs.getD 0)
    cases ok with
    | true =>
      have hnone : (((s.db.exec .bumpPoolRevision).2.exec (.poolCheck ip ts true (rttMs.getD 0))).2).pool.get? ip = none :=
        Option.map_eq_none_iff.1 ((congrArg Standing.row (hsame ip)).trans (by simp [Database.standing, hrow]))
      intro k
      have hinsert := run_insertPoolRow h₂ hnone k
      simp only [hsame] at hinsert
      exact hinsert
    | false =>
      cases h₂
      intro k
      rw [hsame k]
      split
      · rename_i hk
        rw [hk, Standing.report, Database.standing, hrow]
        rfl
      · rfl

/-! ## Programs that end -/

/-- The insert of a check that has a row succeeds. -/
theorem exists_run_saveRecheckResult {r : RecheckResult} {row : NewCheck} (hrow : recheckRow r = .ok row) (s : Site) :
    ∃ s', (saveRecheckResult r).run serve s = (.ok (), s') := by
  have hinsert : (insertRecheck r).run serve s = (.ok (), (serve (.batch [.insertRecheck row]) s).2) := by
    unfold insertRecheck
    rw [hrow]
    rfl
  unfold saveRecheckResult
  split
  · exact ⟨_, hinsert⟩
  · change ∃ s', (if s.db.isKnownGood r.ip then insertRecheck r else pure ()).run serve s = (.ok (), s')
    split
    · exact ⟨_, hinsert⟩
    · exact ⟨s, rfl⟩

/-- The pool update of a check succeeds where its date and its scan mode are taken. -/
theorem exists_run_updatePoolForCheck (ip : String) (ok : Bool) (rttMs : Option Int) {checkedAt : JsDate} {ts : String}
    (hts : toSQLiteDateTime checkedAt = .ok ts) {scanMode : Bindable} {mode : Option String}
    (hmode : scanMode.bind = .ok mode) (s : Site) :
    ∃ s', (updatePoolForCheck ip ok rttMs checkedAt scanMode).run serve s = (.ok (), s') := by
  unfold updatePoolForCheck
  rw [hts]
  change ∃ s', ((s.db.batch [.bumpPoolRevision, .poolCheck ip ts ok (rttMs.getD 0)]).1[1]?.elim
    (Prog.fail "pool update result missing")
    fun changes => if changes = 0 ∧ ok then insertPoolRow ip rttMs ts scanMode else pure () : Program Unit).run serve _ =
      (.ok (), s')
  have hinsert : ∀ s : Site, ∃ s', (insertPoolRow ip rttMs ts scanMode).run serve s = (.ok (), s') := by
    intro s
    unfold insertPoolRow
    rw [hmode]
    exact ⟨_, rfl⟩
  rw [Database.batch_poolCheck, Option.elim_some]
  generalize (if (s.db.pool.get? ip).isSome then 1 else 0) = changes
  split
  · exact hinsert _
  · exact ⟨_, rfl⟩

/-! ## Where checks are deleted -/

/-- The call deletes no checks. -/
def NoDelete (e : Call) : Prop := ∀ stmts ips k, e = .batch stmts → Stmt.deleteOldChecks ips k ∉ stmts

/-- The insert of a check deletes none. -/
theorem noDelete_insertRecheck (r : RecheckResult) : (insertRecheck r).Makes NoDelete := by
  refine Prog.makes_ofExcept_bind fun row _ => ⟨fun stmts ips k he hm => ?_, fun _ => trivial⟩
  cases he
  cases List.mem_singleton.1 hm

/-- A single check is saved without deletes. -/
theorem noDelete_saveRecheckResult (r : RecheckResult) : (saveRecheckResult r).Makes NoDelete := by
  unfold saveRecheckResult
  split
  · exact noDelete_insertRecheck r
  · refine ⟨nofun, fun known => ?_⟩
    cases known with
    | false => trivial
    | true => exact noDelete_insertRecheck r

/-- The pool is updated without deletes. -/
theorem noDelete_updatePoolForCheck (ip : String) (ok : Bool) (rttMs : Option Int) (checkedAt : JsDate) (scanMode : Bindable) :
    (updatePoolForCheck ip ok rttMs checkedAt scanMode).Makes NoDelete := by
  have htwo : ∀ stmt : Stmt, (∀ ips k, stmt ≠ .deleteOldChecks ips k) → NoDelete (.batch [.bumpPoolRevision, stmt]) := by
    intro stmt hstmt stmts ips k he hm
    cases he
    rcases List.mem_cons.1 hm with hm | hm
    · cases hm
    · exact hstmt ips k (List.mem_singleton.1 hm).symm
  have hne : ∀ stmt : Stmt, stmt.poolIp?.isSome → ∀ ips k, stmt ≠ .deleteOldChecks ips k := by
    intro stmt hstmt ips k heq
    rw [heq] at hstmt
    cases hstmt
  refine Prog.makes_ofExcept_bind fun ts _ => ⟨htwo _ (hne _ rfl), fun results => ?_⟩
  simp only [Prog.bind]
  split
  · trivial
  · split
    · exact Prog.makes_ofExcept_bind fun _ _ => ⟨htwo _ (hne _ rfl), fun _ => trivial⟩
    · trivial

/-- Nor does an eviction. -/
theorem noDelete_evictDead (dead : List String) : (evictDead dead).Makes NoDelete := by
  unfold evictDead
  split
  · refine ⟨fun stmts ips k he hm => ?_, fun _ => trivial⟩
    cases he
    simp at hm
  · trivial

/-- The prune of one IP deletes on the state it starts from, the checks of the IP over the limit. -/
theorem deletes_of_pruneCheckHistory {ip : String} {s s' : Site} {stmts : List Stmt} {ips : List String} {k : Nat}
    (h : (pruneCheckHistory [ip]).Visits serve s (.batch stmts) s') (hm : Stmt.deleteOldChecks ips k ∈ stmts) :
    s' = s ∧ k = CHECK_HISTORY_RETENTION ∧ ips = s.db.overLimit [ip] CHECK_HISTORY_RETENTION := by
  have hchunks : chunks PRUNE_IP_CHUNK [ip].eraseDups = [[ip]] := rfl
  unfold pruneCheckHistory at h
  rw [hchunks] at h
  rcases h with ⟨he, -⟩ | h
  · cases he
  rcases Prog.Visits.bind_cases h with h | ⟨_, _, -, h⟩
  · rcases Prog.Visits.bind_cases h with h | ⟨_, _, hread, h⟩
    · exact h.elim
    cases hread
    rcases Prog.Visits.bind_cases h with h | ⟨_, _, -, h⟩
    · unfold deleteOld at h
      split at h
      · rcases h with ⟨he, rfl⟩ | h
        · cases he
          rcases List.mem_cons.1 hm with heq | hm
          · cases heq
            exact ⟨rfl, rfl, rfl⟩
          · cases List.mem_singleton.1 hm
        · exact h.elim
      · exact h.elim
    · rcases h with ⟨he, -⟩ | h
      · cases he
      · exact absurd hm (h.makes (noDelete_evictDead _) stmts ips k rfl)
  · exact h.elim

end Gwsdb.Store

namespace Gwsdb.Web

open Gwsdb.Store
open Interleave (Prog)

/-- A single check stored, run alone to its end. -/
theorem run_storeCheck {r : RecheckResult} {s s' : Store.Site} {u : Unit} (h : (storeCheck r).run serve s = (.ok u, s')) :
    ∃ ts, toSQLiteDateTime r.checkedAt = .ok ts ∧
      ((r.ok = false ∧ s.db.pool.get? r.ip = none ∧ ∀ k, s'.db.standing k = s.db.standing k) ∨
        (r.ok = true ∨ (s.db.pool.get? r.ip).isSome) ∧ ∃ row, recheckRow r = .ok row ∧ row.checkedAt = ts ∧
          ∀ k, s'.db.standing k = if k = r.ip then
            (((s.db.standing r.ip).insert (s.db.checks.next row)).report (checkReport r.ok ts)).prune else s.db.standing k) := by
  obtain ⟨_, s₁, h₁, h'⟩ := Prog.run_bind_ok h
  obtain ⟨_, s₂, h₂, h₃⟩ := Prog.run_bind_ok h'
  obtain ⟨ts, hts, hreport⟩ := run_updatePoolForCheck h₂
  obtain ⟨s₃, hrun, hprune⟩ := run_pruneCheckHistory [r.ip] s₂
  rw [h₃] at hrun
  cases hrun
  refine ⟨ts, hts, ?_⟩
  simp only [List.mem_singleton] at hprune
  rcases run_saveRecheckResult h₁ with ⟨hok, hnone, rfl⟩ | ⟨hknown, row, hrow, rfl⟩
  · refine Or.inl ⟨hok, hnone, fun k => ?_⟩
    rw [hprune k, hreport k]
    split
    · rename_i hk
      subst hk
      rw [hok, Standing.report, Database.standing, hnone]
      rfl
    · rfl
  · obtain ⟨hip, -, hat⟩ := recheckRow_ok hrow
    have hat' : row.checkedAt = ts := Except.ok.inj (hat.symm.trans hts)
    refine Or.inr ⟨hknown, row, hrow, hat', fun k => ?_⟩
    rw [hprune k, hreport k, Database.standing_insert, Database.standing_insert]
    split
    · rfl
    · rename_i hk
      rw [if_neg fun h => hk (h.symm.trans hip)]

/-- A single check stored deletes on a state that has its row and its report, the checks of its IP over the limit. -/
theorem deletes_of_storeCheck {r : RecheckResult} {s s' : Store.Site} {stmts : List Stmt} {ips : List String} {k : Nat}
    (h : (storeCheck r).Visits serve s (.batch stmts) s') (hm : Stmt.deleteOldChecks ips k ∈ stmts) :
    k = CHECK_HISTORY_RETENTION ∧ ips = s'.db.overLimit [r.ip] CHECK_HISTORY_RETENTION ∧
      ∃ s₁ ts, (saveRecheckResult r).run serve s = (.ok (), s₁) ∧ toSQLiteDateTime r.checkedAt = .ok ts ∧
        s'.db.standing r.ip = (s₁.db.standing r.ip).report (checkReport r.ok ts) := by
  rcases Prog.Visits.bind_cases h with h | ⟨_, s₁, h₁, h⟩
  · exact absurd hm (h.makes (noDelete_saveRecheckResult r) stmts ips k rfl)
  rcases Prog.Visits.bind_cases h with h | ⟨_, s₂, h₂, h⟩
  · exact absurd hm (h.makes (noDelete_updatePoolForCheck _ _ _ _ _) stmts ips k rfl)
  obtain ⟨rfl, rfl, rfl⟩ := deletes_of_pruneCheckHistory h hm
  obtain ⟨ts, hts, hreport⟩ := run_updatePoolForCheck h₂
  exact ⟨rfl, rfl, s₁, ts, h₁, hts, (hreport r.ip).trans (if_pos rfl)⟩

end Gwsdb.Web
