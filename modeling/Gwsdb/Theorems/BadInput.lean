import Gwsdb.Lemmas.Ingest
import Gwsdb.Lemmas.IpAddr
import Gwsdb.Web.Requests

/-!
# A body with a bad value

A body of `/ingest` that is refused leaves the tables alone. A value that cannot be bound is found chunk by chunk, after the
chunks before it are written: the tables stay as they were only when those chunks insert nothing.
-/

namespace Gwsdb.Store

open Chunks (chunks)
open Interleave (Prog)

/-- The values of a row can be bound. -/
def CheckRow.bindable (row : CheckRow) : Bool := row.checkedAt.isSome && decide (row.scanMode ≠ .undefined)

/-- The rows of the chunks before the first one with a row that cannot be bound. -/
def committedRows (rows : List CheckRow) : List CheckRow :=
  ((chunks MAX_BATCH rows).takeWhile fun chunk => chunk.all CheckRow.bindable).flatten

/-- The row is not in the history yet, and the batch lets it in. -/
def Database.takesIn (db : Database) (cutoff : String) (rows : List CheckRow) (row : CheckRow) : Prop :=
  db.letsIn cutoff rows row.ip = true ∧ ∀ r ∈ db.checks.rows, r.ip = row.ip → toSQLiteDateTime row.checkedAt ≠ .ok r.checkedAt

/-- A row can be bound when its statement is made. -/
theorem bindable_iff (ips : List String) (cutoff : String) (row : CheckRow) :
    row.bindable = true ↔ ∃ stmt, insertCheckStmt ips cutoff row = .ok stmt := by
  unfold CheckRow.bindable insertCheckStmt
  cases row.checkedAt with
  | none =>
    simp only [Option.isSome_none, Bool.false_and, Bool.false_eq_true, false_iff]
    rintro ⟨stmt, h⟩
    cases h
  | some t =>
    cases row.scanMode with
    | undefined =>
      simp only [ne_eq, not_true_eq_false, decide_false, Bool.and_false, Bool.false_eq_true, false_iff]
      rintro ⟨stmt, h⟩
      cases h
    | null => exact ⟨fun _ => ⟨_, rfl⟩, fun _ => rfl⟩
    | text mode => exact ⟨fun _ => ⟨_, rfl⟩, fun _ => rfl⟩

/-- A bound row is not taken in exactly when its statement finds the gate closed or its key in the history. -/
theorem hasKey_of_opens_iff {db : Database} {cutoff : String} {all : List CheckRow} {row : CheckRow}
    (hrow : row ∈ all) {stmt : Stmt}
    (hstmt : insertCheckStmt ((all.filter (·.ok)).map (·.ip)) cutoff row = .ok stmt) :
    (∀ new, stmt.inserted? = some new → db.opens stmt = true → db.checks.HasKey new) ↔ ¬db.takesIn cutoff all row := by
  have hopens := opens_bound db hrow hstmt
  obtain ⟨checkedAt, scanMode, hd, -, rfl⟩ := insertCheckStmt_ok hstmt
  simp only [Stmt.inserted?, Option.some.injEq, forall_eq', hopens, Database.takesIn, hd, Except.ok.injEq, not_and, not_forall,
    not_not, IpChecks.HasKey]
  refine imp_congr_right fun _ => ⟨?_, ?_⟩
  · rintro ⟨r, hr, hip, heq⟩
    exact ⟨r, hr, hip, heq.symm⟩
  · rintro ⟨r, hr, hip, heq⟩
    exact ⟨r, hr, hip, heq.symm⟩

/-- Statements bound from rows of a batch change nothing exactly when none of the rows is taken in. -/
theorem inserts_nothing_iff {db : Database} {cutoff : String} {all rows : List CheckRow} (hall : ∀ row ∈ rows, row ∈ all)
    {stmts : List Stmt}
    (h : List.Forall₂ (fun row stmt => insertCheckStmt ((all.filter (·.ok)).map (·.ip)) cutoff row = .ok stmt) rows stmts) :
    (db.after stmts).checks = db.checks ↔ ∀ row ∈ rows, ¬db.takesIn cutoff all row := by
  rw [Database.after_inserts_eq_self_iff (inserts_of_bound h)]
  constructor
  · intro hstmts row hrow
    obtain ⟨stmt, hm, hstmt⟩ := exists_of_forall₂_mem h.flip hrow
    exact (hasKey_of_opens_iff (hall row hrow) hstmt).1 (hstmts stmt hm)
  · intro hrows stmt hm
    obtain ⟨row, hrow, hstmt⟩ := exists_of_forall₂_mem h hm
    exact (hasKey_of_opens_iff (hall row hrow) hstmt).2 (hrows row hrow)

/-- Once the statements have run, none of the rows is taken in any more. -/
theorem not_takesIn_after {db : Database} {cutoff : String} {all rows : List CheckRow} (hall : ∀ row ∈ rows, row ∈ all)
    {stmts : List Stmt}
    (h : List.Forall₂ (fun row stmt => insertCheckStmt ((all.filter (·.ok)).map (·.ip)) cutoff row = .ok stmt) rows stmts) :
    ∀ row ∈ rows, ¬(db.after stmts).takesIn cutoff all row := by
  intro row hrow
  obtain ⟨stmt, hm, hstmt⟩ := exists_of_forall₂_mem h.flip hrow
  have hinserts := inserts_of_bound h
  refine (hasKey_of_opens_iff (hall row hrow) hstmt).1 fun new hnew hopen => ?_
  obtain ⟨checks, hafter⟩ := Database.after_inserts hinserts db
  have hsame : (db.after stmts).opens stmt = db.opens stmt := by rw [hafter]; cases stmt <;> rfl
  exact Database.hasKey_after_inserts hinserts db hm hnew (hsame ▸ hopen)

/-- Inserts that stop with an error leave the tables alone exactly when no committed row is taken in; after them none is. -/
theorem run_insertCheckRows_error {now : Int} {rows : List CheckRow} {s s' : Site} {e : String}
    (h : (insertCheckRows now rows).run serve s = (.error e, s')) :
    (∃ checks, s' = { s with db := { s.db with checks := checks } }) ∧
      (s'.db.checks = s.db.checks ↔ ∀ row ∈ committedRows rows, ¬s.db.takesIn (dedupCutoff now) rows row) ∧
      ∀ row ∈ committedRows rows, ¬s'.db.takesIn (dedupCutoff now) rows row := by
  obtain ⟨l₁, chunk, l₂, bounds, hl, hbounds, ⟨bad, hbad, hnot⟩, rfl⟩ := run_inChunks_error h
  have hflat := forall₂_flatten hbounds
  rw [← List.flatMap_id (L := bounds)] at hflat
  have hcommitted : committedRows rows = l₁.flatten := by
    have hgood : ∀ c ∈ l₁, c.all CheckRow.bindable = true := by
      intro c hc
      obtain ⟨bound, -, hforall⟩ := exists_of_forall₂_mem hbounds.flip hc
      refine List.all_eq_true.2 fun row hrow => ?_
      obtain ⟨stmt, -, hstmt⟩ := exists_of_forall₂_mem (List.Forall₂.flip hforall) hrow
      exact (bindable_iff _ _ row).2 ⟨stmt, hstmt⟩
    have hstop : ¬chunk.all CheckRow.bindable = true := by
      intro hall
      obtain ⟨stmt, hstmt⟩ := (bindable_iff _ _ bad).1 (List.all_eq_true.1 hall bad hbad)
      exact hnot stmt hstmt
    unfold committedRows
    rw [hl, List.takeWhile_append_of_pos hgood, List.takeWhile_cons, if_neg hstop, List.append_nil]
  have hmem : ∀ row ∈ l₁.flatten, row ∈ rows := by
    intro row hrow
    rw [← Chunks.chunks_flatten (n := MAX_BATCH) (by decide) rows, hl, List.flatten_append]
    exact List.mem_append_left _ hrow
  rw [hcommitted]
  refine ⟨?_, inserts_nothing_iff hmem hflat, not_takesIn_after hmem hflat⟩
  obtain ⟨checks, heq⟩ := Database.after_inserts (inserts_of_bound hflat) s.db
  exact ⟨checks, by rw [heq]⟩

/-- Inserts with a row that cannot be bound stop with an error. -/
theorem run_insertCheckRows_of_unbindable {rows : List CheckRow} {row : CheckRow}
    (hrow : row ∈ rows) (hbad : row.bindable = false)
    (now : Int) (s : Site) : ∃ e s', (insertCheckRows now rows).run serve s = (.error e, s') := by
  rcases hinsert : (insertCheckRows now rows).run serve s with ⟨outcome, s'⟩
  cases outcome with
  | ok u =>
    obtain ⟨bounds, hbounds, -⟩ := run_inChunks_ok hinsert
    have hflat := forall₂_flatten hbounds
    rw [Chunks.chunks_flatten (by decide)] at hflat
    obtain ⟨stmt, -, hstmt⟩ := exists_of_forall₂_mem hflat.flip hrow
    rw [(bindable_iff _ _ row).2 ⟨stmt, hstmt⟩] at hbad
    cases hbad
  | error e => exact ⟨e, s', rfl⟩

end Gwsdb.Store

namespace Gwsdb.Web

open Gwsdb.Store
open Chunks (chunks)
open Interleave (Prog)
open Gwsdb.Net (normalizeIPAddress address addressText)

/-- The handler refused the body, or threw: an answer with status 500. -/
def Failed : Except String Response → Prop
  | .error _ => True
  | .ok (.text _ _) => True
  | .ok _ => False

/-- The rows of a body that is not refused. -/
def bodyRows : Option IngestBody → List CheckRow
  | none => []
  | some body =>
    match readIngest body with
    | .error _ => []
    | .ok (rows, _) => rows

/-- Pruning the history binds no bad value. -/
theorem neverFails_pruneCheckHistory (ips : List String) : (pruneCheckHistory ips).NeverFails := by
  have hdelete : ∀ overLimit, (deleteOld overLimit).NeverFails := by
    intro overLimit
    unfold deleteOld
    split
    · exact fun _ => trivial
    · trivial
  have hevict : ∀ dead, (evictDead dead).NeverFails := by
    intro dead
    unfold evictDead
    split
    · exact fun _ => trivial
    · trivial
  refine Prog.neverFails_forM (fun chunk => ?_) _
  intro overLimit
  exact (hdelete overLimit).bind fun _ dead => hevict dead

/-- A request whose inserts fail fails with their error. -/
theorem run_handleIngest_error {insertAt : Int} (poolAt : Int) {body : IngestBody} {rows : List CheckRow}
    {pruneIPs : Option (List String)} (hread : readIngest body = .ok (rows, pruneIPs)) {s s' : Store.Site} {e : String}
    (hinsert : (insertCheckRows insertAt rows).run serve s = (.error e, s')) :
    (handleIngest insertAt poolAt (some body)).run serve s = (.error e, s') := by
  rw [handleIngest_of_ok hread, ingestRows, Prog.run_bind, Prog.run_bind, hinsert]

/-- A request that fails after its body was read has failed in its inserts. -/
theorem error_of_failed {insertAt poolAt : Int} {body : IngestBody} {rows : List CheckRow} {pruneIPs : Option (List String)}
    (hread : readIngest body = .ok (rows, pruneIPs)) {s s' : Store.Site} {outcome : Except String Response}
    (hrun : (handleIngest insertAt poolAt (some body)).run serve s = (outcome, s')) (hfailed : Failed outcome) :
    ∃ e, (insertCheckRows insertAt rows).run serve s = (.error e, s') := by
  rw [handleIngest_of_ok hread] at hrun
  cases outcome with
  | ok response =>
    obtain ⟨_, s₁, -, hrest⟩ := Prog.run_bind_ok hrun
    split at hrest
    · obtain ⟨_, s₂, -, hret⟩ := Prog.run_bind_ok hrest
      cases hret
      exact hfailed.elim
    · cases hrest
      exact hfailed.elim
  | error e =>
    rcases Prog.run_bind_error hrun with hingest | ⟨_, s₁, -, hrest⟩
    · rcases Prog.run_bind_error hingest with hinsert | ⟨_, s₂, hinsert, hpool⟩
      · exact ⟨e, hinsert⟩
      · obtain ⟨s₃, hok⟩ := exists_run_updatePoolBatch hinsert poolAt
        rw [hok] at hpool
        cases hpool
    · split at hrest
      · rcases Prog.run_bind_error hrest with hprune | ⟨_, s₂, -, hret⟩
        · obtain ⟨_, s₂, hok⟩ := (neverFails_pruneCheckHistory (pruneIPs.getD [])).run_ok serve s₁
          rw [hok] at hprune
          cases hprune
        · cases hret
      · cases hrest

/-- A body of `/ingest` that fails by what it holds leaves the tables alone exactly when no row of the chunks before the first bad
one is taken in. -/
theorem bad_input_iff {insertAt poolAt : Int} {body : Option IngestBody} {s s' : Store.Site} {outcome : Except String Response}
    (hrun : (handleIngest insertAt poolAt body).run serve s = (outcome, s')) (hfailed : Failed outcome) :
    (s'.db.checks = s.db.checks ∧ s'.db.pool = s.db.pool ∧ s'.db.version = s.db.version ∧
        s'.db.resetVersion = s.db.resetVersion) ↔
      ∀ row ∈ committedRows (bodyRows body), ¬s.db.takesIn (dedupCutoff insertAt) (bodyRows body) row := by
  cases body with
  | none =>
    cases hrun
    simp [bodyRows, committedRows]
  | some body =>
    cases hread : readIngest body with
    | error response =>
      rw [handleIngest_of_error hread] at hrun
      cases hrun
      simp [bodyRows, hread, committedRows]
    | ok read =>
      obtain ⟨rows, pruneIPs⟩ := read
      obtain ⟨e, hinsert⟩ := error_of_failed hread hrun hfailed
      obtain ⟨⟨checks, hs'⟩, hiff, -⟩ := run_insertCheckRows_error hinsert
      simp only [bodyRows, hread]
      rw [← hiff, hs']
      simp

/-! ## 501 checks -/

/-- A successful check of each address; the time of the last one cannot be parsed. -/
def manyChecks (i : Nat) : WireCheck :=
  ⟨some (address i), true, some 12, none, none, if i < 500 then some 1756684799999 else none, .text "SNI"⟩

/-- A body of 501 checks. -/
def manyBody : IngestBody := ⟨some ((List.range 501).map manyChecks), some false, some (some [])⟩

/-- The rows of its checks. -/
def manyRows (i : Nat) : CheckRow :=
  ⟨address i, true, some 12, none, none, if i < 500 then some 1756684799999 else none, .text "SNI"⟩

theorem normalize_addressText : ∀ i < 501, normalizeIPAddress (addressText i) = some (addressText i) := by decide +kernel

theorem normalize_address {i : Nat} (h : i < 501) : normalize (address i) = some (address i) := by
  simp [normalize, address, normalize_addressText i h]

theorem readIngest_manyBody : readIngest manyBody = .ok ((List.range 501).map manyRows, some []) := by
  have hrow : ∀ i ∈ List.range 501, toCheckRow (manyChecks i) = some (manyRows i) := by
    intro i hi
    simp [toCheckRow, manyChecks, manyRows, normalize_address (List.mem_range.1 hi)]
  have hrows : ((List.range 501).map manyChecks).filterMap toCheckRow = (List.range 501).map manyRows := by
    rw [List.filterMap_map, ← List.filterMap_eq_map]
    refine List.filterMap_congr fun i hi => ?_
    simp only [Function.comp_apply]
    exact hrow i hi
  have hvalid : (((List.range 501).map manyChecks).any fun c => (c.ip.bind normalize).isNone) = false := by
    rw [Bool.eq_false_iff]
    intro hany
    obtain ⟨c, hc, hnone⟩ := List.any_eq_true.1 hany
    obtain ⟨i, hi, rfl⟩ := List.mem_map.1 hc
    simp [manyChecks, normalize_address (List.mem_range.1 hi)] at hnone
  have hnodup : (((List.range 501).map manyRows).map (·.ip)).Nodup := by
    rw [List.map_map]
    exact List.nodup_range.map Net.address_injective
  unfold readIngest manyBody
  simp only [hvalid, hrows, coalesceCheckRows_of_nodup hnodup]
  simp

/-- The last of the checks cannot be bound, so the request fails in its inserts. -/
theorem manyBody_fails (s : Store.Site) : ∃ e s', (handleIngest 0 0 (some manyBody)).run serve s = (.error e, s') ∧
    (insertCheckRows 0 ((List.range 501).map manyRows)).run serve s = (.error e, s') := by
  have hlast : manyRows 500 ∈ (List.range 501).map manyRows := List.mem_map.2 ⟨500, List.mem_range.2 (by decide), rfl⟩
  obtain ⟨e, s', hinsert⟩ := run_insertCheckRows_of_unbindable hlast rfl 0 s
  exact ⟨e, s', run_handleIngest_error 0 readIngest_manyBody hinsert, hinsert⟩

/-- The first of the checks stands in a chunk that is committed before the last one is met. -/
theorem mem_committedRows_manyRows : manyRows 0 ∈ committedRows ((List.range 501).map manyRows) := by
  have htake : ((List.range 501).map manyRows).take MAX_BATCH = (List.range 500).map manyRows := by
    rw [← List.map_take, List.take_range]
    rfl
  have hgood : ((List.range 500).map manyRows).all CheckRow.bindable = true := by
    refine List.all_eq_true.2 fun row hrow => ?_
    obtain ⟨i, hi, rfl⟩ := List.mem_map.1 hrow
    simp [CheckRow.bindable, manyRows, List.mem_range.1 hi]
  unfold committedRows
  rw [Chunks.chunks_eq_take_cons (by simp), htake, List.takeWhile_cons, if_pos hgood, List.flatten_cons]
  exact List.mem_append_left _ (List.mem_map.2 ⟨0, List.mem_range.2 (by decide), rfl⟩)

/-- After the request the history holds checks. -/
theorem manyBody_inserts {s : Store.Site} {e : String}
    (h : (insertCheckRows 0 ((List.range 501).map manyRows)).run serve emptySite = (.error e, s)) :
    s.db.checks ≠ emptySite.db.checks := by
  intro heq
  refine (run_insertCheckRows_error h).2.1.1 heq _ mem_committedRows_manyRows ⟨?_, nofun⟩
  have hany : ((List.range 501).map manyRows).any (fun row => row.ok && decide (row.ip = (manyRows 0).ip)) = true :=
    List.any_eq_true.2 ⟨manyRows 0, List.mem_map.2 ⟨0, List.mem_range.2 (by decide), rfl⟩, by simp [manyRows]⟩
  unfold Database.letsIn
  rw [hany, Bool.true_or]

/-- A body whose 501st check has a time that cannot be parsed is answered with an error, and 500 of
its checks are in the history. -/
theorem half_a_body_is_kept : ∃ e s', (handleIngest 0 0 (some manyBody)).run serve emptySite = (.error e, s') ∧
    s'.db.checks ≠ emptySite.db.checks := by
  obtain ⟨e, s', hrun, hinsert⟩ := manyBody_fails emptySite
  exact ⟨e, s', hrun, manyBody_inserts hinsert⟩

/-- Submitted again, the body fails again, and the tables stay as the first attempt left them: its
500 checks are in the history. -/
theorem bad_input_again : ∃ e s e' s', (handleIngest 0 0 (some manyBody)).run serve emptySite = (.error e, s) ∧
    s.db.checks ≠ emptySite.db.checks ∧ (handleIngest 0 0 (some manyBody)).run serve s = (.error e', s') ∧
    manyRows 0 ∈ committedRows (bodyRows (some manyBody)) ∧ s'.db.checks = s.db.checks ∧ s'.db.pool = s.db.pool ∧
    s'.db.version = s.db.version ∧ s'.db.resetVersion = s.db.resetVersion := by
  obtain ⟨e, s, hfirst, hinsert⟩ := manyBody_fails emptySite
  obtain ⟨e', s', hagain, -⟩ := manyBody_fails s
  have hrows : bodyRows (some manyBody) = (List.range 501).map manyRows := by simp only [bodyRows, readIngest_manyBody]
  have hfailed : Failed (.error e' : Except String Response) := trivial
  have hsame := (bad_input_iff hagain hfailed).2 (by
    rw [hrows]
    exact (run_insertCheckRows_error hinsert).2.2)
  exact ⟨e, s, e', s', hfirst, manyBody_inserts hinsert, hagain, hrows ▸ mem_committedRows_manyRows, hsame⟩

end Gwsdb.Web
