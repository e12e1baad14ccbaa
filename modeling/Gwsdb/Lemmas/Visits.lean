import Gwsdb.Lemmas.Standing
import Gwsdb.Lib.Sieve
import Gwsdb.Lib.Transition

/-!
# What a request does to one IP

A task that completes visits every IP by itself (`run_task`): checks come in, the pool row takes a report, and the checks are
pruned. What the visit of an IP is can be read from the task and from the pool row of the IP before it (`Task.visit`).
-/

namespace Gwsdb.Store

open Interleave (Prog)

/-! ## Visits -/

/-- What a request does to an IP: the verdicts and times of the checks that it lets in, in order, the report that the pool row
takes, and whether the checks are pruned. -/
structure Visit where
  checks : List (Bool × String)
  report : Option Report
  pruned : Bool
  deriving DecidableEq

/-- The verdict and the time of a check. -/
def IpCheck.outcome (r : IpCheck) : Bool × String := (r.ok, r.checkedAt)

/-- The text of a time; the empty text for one that is not valid. -/
def JsDate.text (d : JsDate) : String := (toSQLiteDateTime d).toOption.getD ""

/-- The verdict and the time of a row. -/
def CheckRow.outcome (row : CheckRow) : Bool × String := (row.ok, row.checkedAt.text)

/-- A date that SQLite takes is stored as its text. -/
theorem text_of_ok {d : JsDate} {ts : String} (h : toSQLiteDateTime d = .ok ts) : d.text = ts := by
  unfold JsDate.text
  rw [h]
  rfl

/-- The standing after a visit whose checks come in as the rows `rs`. -/
def Standing.visited (st : Standing) (v : Visit) (rs : List IpCheck) : Standing :=
  let st := rs.foldl Standing.insert st
  let st := v.report.elim st st.report
  if v.pruned then st.prune else st

/-! ## Checks that come in -/

namespace Standing

/-- The verdicts and times of the checks. -/
def outcomes (st : Standing) : List (Bool × String) := st.checks.map IpCheck.outcome

/-- Of checks that come in one after another, those that are let in: the first of each time of which none is there. -/
def letIn (st : Standing) (checks : List (Bool × String)) : List (Bool × String) :=
  Sieve.sift (Sieve.first (fun x => decide ¬st.HasTime x.2) Prod.snd) checks

/-- The verdicts and times of the checks and of those that a visit lets in. -/
def known (st : Standing) (v : Visit) : List (Bool × String) := st.outcomes ++ st.letIn v.checks

/-- Checks that come in leave the pool row as it is. -/
theorem foldl_insert_row (st : Standing) (rs : List IpCheck) : (rs.foldl insert st).row = st.row := by
  induction rs generalizing st with
  | nil => rfl
  | cons r rs ih =>
    rw [List.foldl_cons, ih, insert]
    split <;> rfl

/-- After an insert the time of the row is there. -/
theorem hasTime_insert {st : Standing} {r : IpCheck} {checkedAt : String} :
    (st.insert r).HasTime checkedAt ↔ st.HasTime checkedAt ∨ r.checkedAt = checkedAt := by
  unfold insert
  split
  · rename_i h
    exact ⟨Or.inl, fun hor => hor.elim id fun heq => heq ▸ h⟩
  · simp only [HasTime, List.mem_orderedInsert, exists_eq_or_imp]
    exact or_comm

/-- After several the times of all of them are. -/
theorem hasTime_foldl_insert {st : Standing} {rs : List IpCheck} {checkedAt : String} :
    (rs.foldl insert st).HasTime checkedAt ↔ st.HasTime checkedAt ∨ ∃ r ∈ rs, r.checkedAt = checkedAt := by
  induction rs generalizing st with
  | nil => simp
  | cons r rs ih =>
    rw [List.foldl_cons, ih, hasTime_insert, or_assoc]
    simp only [List.mem_cons, exists_eq_or_imp]

/-- Checks that come in are let in or change nothing. -/
theorem outcomes_foldl_insert (st : Standing) (rs : List IpCheck) :
    ((rs.foldl insert st).outcomes).Perm (st.outcomes ++ st.letIn (rs.map IpCheck.outcome)) := by
  induction rs using List.reverseRecOn with
  | nil => simp [letIn]
  | append_singleton rs r ih =>
    have hlet : Sieve.first (fun x => decide ¬st.HasTime x.2) Prod.snd (rs.map IpCheck.outcome) r.outcome = true ↔
        ¬(rs.foldl insert st).HasTime r.checkedAt := by
      rw [Sieve.first_iff, hasTime_foldl_insert, not_or, decide_eq_true_iff]
      refine and_congr_right fun hnew => not_congr ?_
      simp only [List.mem_map, exists_exists_and_eq_and, decide_eq_true_iff]
      refine exists_congr fun r' => and_congr_right fun _ => ⟨And.right, fun heq => ⟨fun h => hnew ?_, heq⟩⟩
      have hsame : r'.checkedAt = r.checkedAt := heq
      exact hsame.subst (motive := st.HasTime) h
    rw [List.foldl_append, List.foldl_cons, List.foldl_nil, letIn, List.map_append, List.map_singleton, Sieve.sift_concat]
    by_cases h : (rs.foldl insert st).HasTime r.checkedAt
    · rw [insert, if_pos h, if_neg fun hfirst => hlet.1 hfirst h, List.append_nil]
      exact ih
    · rw [insert, if_neg h, if_pos (hlet.2 h), ← List.append_assoc]
      exact (((List.perm_orderedInsert _ _ _).map IpCheck.outcome).trans (ih.cons _)).trans (List.perm_append_singleton _ _).symm

/-- The outcomes after the checks of a visit came in are those known to it, in some order. -/
theorem known_perm {st : Standing} {v : Visit} {rs : List IpCheck} (hrs : rs.map IpCheck.outcome = v.checks) :
    ((rs.foldl insert st).outcomes).Perm (st.known v) := by
  have hperm := outcomes_foldl_insert st rs
  rw [hrs] at hperm
  exact hperm

end Standing

/-! ## The checks of a batch -/

/-- Inserts, seen from one IP: the rows for it that they let in come in. -/
theorem Database.after_inserts_standing {stmts : List Stmt} (h : ∀ stmt ∈ stmts, stmt.inserted?.isSome)
    (db : Database) (ip : String) :
    ∃ rs : List IpCheck, rs.map (·.toNewCheck) = db.newsOf ip stmts ∧
      (db.after stmts).standing ip = rs.foldl Standing.insert (db.standing ip) := by
  induction stmts generalizing db with
  | nil => exact ⟨[], rfl, rfl⟩
  | cons stmt stmts ih =>
    obtain ⟨row, hrow⟩ := Option.isSome_iff_exists.1 (h stmt List.mem_cons_self)
    obtain ⟨rs, hrs, hstanding⟩ := ih (fun s hs => h s (List.mem_cons_of_mem _ hs)) (db.exec stmt).2
    rw [after_cons, hstanding]
    have hexec := exec_insert_eq db hrow
    cases ho : db.opens stmt with
    | false =>
      rw [ho, if_neg Bool.false_ne_true] at hexec
      rw [hexec] at hrs ⊢
      refine ⟨rs, ?_, rfl⟩
      rw [hrs, newsOf, newsOf, List.filter_cons, ho, if_neg Bool.false_ne_true]
    | true =>
      rw [ho, if_pos rfl] at hexec
      rw [hexec] at hrs ⊢
      have hnews : newsOf { db with checks := db.checks.insert row } ip stmts = newsOf db ip stmts := rfl
      rw [hnews] at hrs
      rw [standing_insert]
      by_cases hip : row.ip = ip
      · refine ⟨db.checks.next row :: rs, ?_, by rw [if_pos hip, List.foldl_cons]⟩
        rw [List.map_cons, hrs, newsOf, newsOf, List.filter_cons, ho, if_pos rfl, List.filterMap_cons, hrow]
        simp only [List.filter_cons, decide_eq_true hip, if_true]
        rfl
      · refine ⟨rs, ?_, by rw [if_neg hip]⟩
        rw [hrs, newsOf, newsOf, List.filter_cons, ho, if_pos rfl, List.filterMap_cons, hrow]
        simp only [List.filter_cons, decide_eq_false hip, Bool.false_eq_true, if_false]

/-- Rows bound have the outcomes of those they were bound from. -/
theorem map_outcome_of_bound {rows : List CheckRow} {rs : List IpCheck}
    (h : List.Forall₂ IsBound rows (rs.map (·.toNewCheck))) : rs.map IpCheck.outcome = rows.map CheckRow.outcome := by
  induction rs generalizing rows with
  | nil =>
    cases h
    rfl
  | cons r rs ih =>
    cases h with
    | cons hbound hrest =>
      rw [List.map_cons, List.map_cons, ih hrest, IpCheck.outcome, CheckRow.outcome, hbound.ok, text_of_ok hbound.checkedAt]

/-- `insertCheckRows` run to its end, seen from one IP. -/
theorem run_insertCheckRows_standing {now : Int} {rows : List CheckRow} {s s' : Site} {u : Unit}
    (h : (insertCheckRows now rows).run serve s = (.ok u, s')) (ip : String) :
    s'.db.pool = s.db.pool ∧ ∃ rs : List IpCheck,
      rs.map IpCheck.outcome = (if s.db.letsIn (dedupCutoff now) rows ip then (rowsOf rows ip).map CheckRow.outcome else []) ∧
        s'.db.standing ip = rs.foldl Standing.insert (s.db.standing ip) := by
  obtain ⟨bounds, hbounds, rfl⟩ := run_inChunks_ok h
  have hflat := forall₂_flatten hbounds
  rw [Chunks.chunks_flatten (by decide), ← List.flatMap_id] at hflat
  have hinserts := inserts_of_bound hflat
  refine ⟨?_, ?_⟩
  · obtain ⟨checks, heq⟩ := Database.after_inserts hinserts s.db
    show (s.db.after (bounds.flatMap id)).pool = s.db.pool
    rw [heq]
  · obtain ⟨news, hnews, heq⟩ := newsOf_bound s.db (fun _ hr => hr) hflat ip
    obtain ⟨rs, hrs, hstanding⟩ := Database.after_inserts_standing hinserts s.db ip
    refine ⟨rs, ?_, hstanding⟩
    rw [heq] at hrs
    split at hrs
    · rename_i hlets
      rw [← hrs] at hnews
      rw [if_pos hlets]
      exact map_outcome_of_bound hnews
    · rename_i hlets
      rw [if_neg hlets, List.map_eq_nil_iff.1 hrs]
      rfl

/-! ## The report of a batch -/

/-- What a batch reports of an IP: its success, else its failure where the gate of the pool row is open. -/
def batchReport (gate : Bool) (rows : List CheckRow) (ip : String) : Option Report :=
  (uniqueOf (keptRows (rowsOf rows ip))).bind fun u =>
    if u.success.isSome || gate then some ⟨u.success.map (·.checkedAt.text), u.latest.checkedAt.text, u.latest.ok⟩ else none

/-- A pool row that a statement made, and stamped, is as the statement made it to a summary. -/
theorem Database.standing_of_rewrite {db db' : Database} {stmt : Stmt} {ip : String} {v : Nat} (hip : stmt.poolIp? = some ip)
    (hchecks : db'.checks = db.checks)
    (hrow : db'.pool.get? ip = ((db.rewrite stmt (db.pool.get? ip)).map fun row =>
      { row with revision := v }).or (db.pool.get? ip)) :
    db'.standing ip = (db.exec stmt).2.standing ip := by
  rw [exec_writes db hip, standing_writePool, if_pos rfl, standing, hchecks, hrow]
  cases db.rewrite stmt (db.pool.get? ip) <;> rfl

/-- `updatePoolBatch` run to its end, seen from one IP. -/
theorem run_updatePoolBatch_standing {now : Int} {rows : List CheckRow} {s s' : Site} {u : Unit}
    (h : (updatePoolBatch now rows).run serve s = (.ok u, s')) (ip : String) :
    s'.db.standing ip =
      (batchReport ((s.db.pool.get? ip).any (·.failureGate (dedupCutoff now))) rows ip).elim (s.db.standing ip)
        (s.db.standing ip).report := by
  obtain ⟨hchecks, hpool⟩ := run_updatePoolBatch h ip
  unfold batchReport
  cases hu : uniqueOf (keptRows (rowsOf rows ip)) with
  | none =>
    rw [hu] at hpool
    rw [Database.standing, hchecks, hpool]
    rfl
  | some u =>
    rw [hu] at hpool
    obtain ⟨stmt, v, hstmt, -, hrow⟩ := hpool
    obtain ⟨-, hip⟩ := uniqueOf_eq_some_iff.1 hu
    have hpoolIp := poolStmt_poolIp hstmt
    rw [hip] at hpoolIp
    rw [Database.standing_of_rewrite hpoolIp hchecks hrow, Option.bind_some]
    obtain ⟨latestTS, hlatest, ⟨hsuccess, rfl⟩ | ⟨success, successTS, scanMode, hsuccess, hts, -, rfl⟩⟩ := poolStmt_ok hstmt
    · have hfailed : u.latest.ok = false := by
        rw [Bool.eq_false_iff]
        intro hok
        exact (isUnique _ hu).success_of_ok _ (isUnique _ hu).latest_mem hok hsuccess
      rw [Database.standing_poolFailure, hip, hsuccess, text_of_ok hlatest, hfailed]
      cases (s.db.pool.get? ip).any (·.failureGate (dedupCutoff now)) <;> simp
    · rw [Database.standing_poolUpsert, if_pos hip.symm, hip, hsuccess]
      simp only [Option.isSome_some, Bool.true_or, if_true, Option.map_some, Option.elim_some,
        PoolSuccess.toReport, text_of_ok hlatest,
        text_of_ok hts]

end Gwsdb.Store

namespace Gwsdb.Web

open Gwsdb.Store
open Interleave (Prog)

/-! ## What a task brings -/

/-- What a task brings: rows to store and then IPs to prune, a single check, IPs to prune, or nothing of these. -/
inductive Brought where
  | rows (insertAt poolAt : Int) (rows : List CheckRow) (pruned : List String)
  | check (r : RecheckResult)
  | prune (ips : List String)
  | nothing
  deriving DecidableEq

/-- What a task brings, from its body. -/
def Task.brings : Task → Brought
  | .ingest insertAt poolAt (some body) =>
    match readIngest body with
    | .error _ => .nothing
    | .ok (rows, pruneIPs) => .rows insertAt poolAt rows (if body.maintenance ≠ some false then pruneIPs.getD [] else [])
  | .check checkedAt raw probe =>
    match normalize raw with
    | none => .nothing
    | some ip =>
      if probe.mixed then .nothing
      else .check ⟨ip, probe.ok, probe.rttMs, probe.reason, probe.detail, some checkedAt, .text DEFAULT_SCAN_MODE⟩
  | .result (some body) =>
    match readResult body with
    | .error _ => .nothing
    | .ok r => .check r
  | .prune ips => .prune ips
  | _ => .nothing

/-- The visit that a task pays to an IP. A failure comes in only where the pool has the IP: with a batch where the
failure gate of its row is open or the batch has a success of the IP too, at the clock reading of the inserts and again
at that of the pool update. -/
def Task.visit (t : Task) (db : Database) (ip : String) : Visit :=
  match t.brings with
  | .rows insertAt poolAt rows pruned =>
    { checks := if db.letsIn (dedupCutoff insertAt) rows ip then (rowsOf rows ip).map CheckRow.outcome else []
      report := batchReport ((db.pool.get? ip).any (·.failureGate (dedupCutoff poolAt))) rows ip
      pruned := decide (ip ∈ pruned) }
  | .check r =>
    if ip = r.ip ∧ (r.ok || (db.pool.get? ip).isSome)
      then ⟨[(r.ok, r.checkedAt.text)], some (checkReport r.ok r.checkedAt.text), true⟩
    else ⟨[], none, decide (ip = r.ip)⟩
  | .prune ips => ⟨[], none, decide (ip ∈ ips)⟩
  | .nothing => ⟨[], none, false⟩

/-- Calls that leave the standing of every IP alone. -/
abbrev Still : Store.Call → Prop := Each fun stmt => ∀ (db : Database) ip, (db.exec stmt).2.standing ip = db.standing ip

/-- A still call leaves the standing of every IP. -/
theorem still_serve {e : Store.Call} (h : Still e) (s : Store.Site) (ip : String) :
    (serve e s).2.db.standing ip = s.db.standing ip := by
  cases e with
  | batch stmts =>
    have hafter : (s.db.after stmts).standing ip = s.db.standing ip :=
      Database.after_invariant (I := fun db => db.standing ip = s.db.standing ip)
        (fun db stmt hstmt hdb => (hstmt db ip).trans hdb) h rfl
    rw [← Database.batch_snd] at hafter
    exact hafter
  | _ => rfl

/-- What a task brings decides its program. -/
inductive Starts (t : Task) : Brought → Prop
  | rows {insertAt poolAt : Int} {rows : List CheckRow} {pruned : List String} (response : Response)
      (h : start t = (ingestRows insertAt poolAt rows >>= fun _ => pruneCheckHistory pruned >>= fun _ => .ret response)) :
      Starts t (.rows insertAt poolAt rows pruned)
  | check {r : RecheckResult} (response : Response)
    (h : start t = (storeCheck r >>= fun _ => .ret response)) : Starts t (.check r)
  | prune {ips : List String} (response : Response) (h : start t = (pruneCheckHistory ips >>= fun _ => .ret response)) :
      Starts t (.prune ips)
  | nothing (h : (start t).Makes Still) : Starts t .nothing

/-- The statements that save PTR results leave every standing alone. -/
theorem still_ptrPairs (pairs : List (String × PtrRow × String)) :
    Still (.batch (.bumpPoolRevision :: pairs.flatMap ptrPair)) := by
  refine each_ptrPairs (fun _ _ => rfl) (fun _ _ _ _ => rfl) (fun touched ts db ip => ?_) pairs
  have hwrite := db.standing_writePool touched (db.rewrite (.touchPTR touched ts)) ip
  rw [← Database.exec_writes db (rfl : (Stmt.touchPTR touched ts).poolIp? = some touched)] at hwrite
  rw [hwrite]
  split
  · rename_i hip
    subst hip
    cases hrow : db.pool.get? ip <;> simp [Database.standing, Database.rewrite, PoolRow.summary, hrow]
  · rfl

/-- A task runs what it brings. -/
theorem starts (t : Task) : Starts t t.brings := by
  cases t with
  | ingest insertAt poolAt body =>
    cases body with
    | none => exact .nothing trivial
    | some body =>
      have hstart : start (.ingest insertAt poolAt (some body)) = handleIngest insertAt poolAt (some body) := rfl
      cases hread : readIngest body with
      | error response =>
        simp only [Task.brings, hread]
        refine .nothing ?_
        rw [hstart, handleIngest_of_error hread]
        trivial
      | ok read =>
        obtain ⟨rows, pruneIPs⟩ := read
        simp only [Task.brings, hread]
        refine .rows (.ingested rows.length true) ?_
        rw [hstart, handleIngest_of_ok hread]
        split
        · rfl
        · rfl
  | check checkedAt raw probe =>
    have hstart : start (.check checkedAt raw probe) = handleCheck checkedAt raw probe := rfl
    cases hip : normalize raw with
    | none =>
      simp only [Task.brings, hip]
      refine .nothing ?_
      rw [hstart, handleCheck_of_invalid hip]
      trivial
    | some ip =>
      by_cases hmixed : probe.mixed = true
      · simp only [Task.brings, hip, if_pos hmixed]
        refine .nothing ?_
        rw [hstart, handleCheck_of_mixed hip hmixed]
        trivial
      · simp only [Task.brings, hip, if_neg hmixed]
        exact .check (.probed probe.ok) (hstart.trans (handleCheck_of_probed hip hmixed))
  | result body =>
    cases body with
    | none => exact .nothing trivial
    | some body =>
      have hstart : start (.result (some body)) = handleResult (some body) := rfl
      cases hread : readResult body with
      | error response =>
        simp only [Task.brings, hread]
        refine .nothing ?_
        rw [hstart, handleResult_of_error hread]
        trivial
      | ok r =>
        simp only [Task.brings, hread]
        exact .check .saved (hstart.trans (handleResult_of_ok hread))
  | prune ips => exact .prune .finished rfl
  | savePTR e => exact .nothing ((makes_savePTR_of still_ptrPairs e).bind fun _ => Prog.makes_ret _ _)
  | savePTRBatch entries => exact .nothing ((makes_savePTRBatch_of still_ptrPairs entries).bind fun _ => Prog.makes_ret _ _)
  | changes since edgeHit totalsHit =>
    refine .nothing ((makes_handleChanges since edgeHit totalsHit).mono fun e he => ?_)
    cases e <;> first | exact he.elim | trivial

/-! ## Tasks that complete -/

/-- A batch stored, run alone to its end, seen from one IP. -/
theorem run_ingestRows_standing {insertAt poolAt : Int} {rows : List CheckRow} {s s' : Store.Site} {u : Unit}
    (h : (ingestRows insertAt poolAt rows).run serve s = (.ok u, s')) (ip : String) :
    ∃ rs : List IpCheck,
      rs.map IpCheck.outcome = (if s.db.letsIn (dedupCutoff insertAt) rows ip
        then (rowsOf rows ip).map CheckRow.outcome else []) ∧
        s'.db.standing ip =
          (batchReport ((s.db.pool.get? ip).any (·.failureGate (dedupCutoff poolAt))) rows ip).elim
            (rs.foldl Standing.insert (s.db.standing ip)) (rs.foldl Standing.insert (s.db.standing ip)).report := by
  obtain ⟨_, s₁, h₁, h₂⟩ := Prog.run_bind_ok h
  obtain ⟨hpool, rs, hrs, hinserted⟩ := run_insertCheckRows_standing h₁ ip
  have hupdated := run_updatePoolBatch_standing h₂ ip
  rw [hpool, hinserted] at hupdated
  exact ⟨rs, hrs, hupdated⟩

/-- A task that completes visits each IP. -/
theorem run_task {t : Task} {s s' : Store.Site} {response : Response}
    (h : (start t).run serve s = (.ok response, s')) (ip : String) :
    ∃ rs : List IpCheck, rs.map IpCheck.outcome = (t.visit s.db ip).checks ∧
      s'.db.standing ip = (s.db.standing ip).visited (t.visit s.db ip) rs := by
  have hstarts := starts t
  unfold Task.visit
  generalize t.brings = b at hstarts
  cases hstarts with
  | @rows insertAt poolAt rows pruned answer hstart =>
    rw [hstart] at h
    obtain ⟨_, s₁, h₁, h'⟩ := Prog.run_bind_ok h
    obtain ⟨_, s₂, h₂, h₃⟩ := Prog.run_bind_ok h'
    cases h₃
    obtain ⟨s₃, hrun, hprune⟩ := run_pruneCheckHistory pruned s₁
    rw [h₂] at hrun
    cases hrun
    obtain ⟨rs, hrs, hstored⟩ := run_ingestRows_standing h₁ ip
    refine ⟨rs, hrs, ?_⟩
    rw [hprune ip, hstored]
    simp only [Standing.visited, decide_eq_true_eq]
  | @check r answer hstart =>
    rw [hstart] at h
    obtain ⟨_, s₁, h₁, h₂⟩ := Prog.run_bind_ok h
    cases h₂
    obtain ⟨ts, hts, hcases⟩ := run_storeCheck h₁
    dsimp only
    rcases hcases with ⟨hfailed, hnone, hsame⟩ | ⟨hknown, row, hrow, hat, hstanding⟩
    · have hrefused : ¬(ip = r.ip ∧ (r.ok || (s.db.pool.get? ip).isSome) = true) := by
        rintro ⟨rfl, hknown⟩
        rw [hfailed, hnone] at hknown
        cases hknown
      rw [if_neg hrefused]
      refine ⟨[], rfl, ?_⟩
      simp only [Standing.visited, List.foldl_nil, Option.elim_none, decide_eq_true_eq]
      split
      · rename_i hip
        subst hip
        rw [hsame, Database.standing, hnone]
        rfl
      · exact hsame ip
    · rw [hstanding ip]
      by_cases hip : ip = r.ip
      · subst hip
        have hlets : r.ip = r.ip ∧ (r.ok || (s.db.pool.get? r.ip).isSome) = true := ⟨rfl, Bool.or_eq_true_iff.2 hknown⟩
        rw [if_pos hlets, if_pos rfl]
        obtain ⟨-, hok, -⟩ := recheckRow_ok hrow
        refine ⟨[s.db.checks.next row], ?_, ?_⟩
        · rw [List.map_singleton, IpCheck.outcome, text_of_ok hts]
          exact congrArg₂ (fun ok at' => [(ok, at')]) hok hat
        · rw [text_of_ok hts]
          rfl
      · rw [if_neg hip, if_neg fun h => hip h.1, decide_eq_false hip]
        exact ⟨[], rfl, rfl⟩
  | @prune ips answer hstart =>
    rw [hstart] at h
    obtain ⟨_, s₁, h₁, h₂⟩ := Prog.run_bind_ok h
    cases h₂
    obtain ⟨s₃, hrun, hprune⟩ := run_pruneCheckHistory ips s
    rw [h₁] at hrun
    cases hrun
    refine ⟨[], rfl, ?_⟩
    rw [hprune ip]
    simp only [Standing.visited, List.foldl_nil, Option.elim_none, decide_eq_true_eq]
  | nothing hstill =>
    refine ⟨[], rfl, ?_⟩
    have hsame := Prog.run_invariant (H := serve) (I := fun site => site.db.standing ip = s.db.standing ip)
      (fun e site hcall hsite => (still_serve hcall site ip).trans hsite) _ hstill s rfl
    rw [h] at hsame
    exact hsame

/-- The site after a task that completes. -/
def complete (s : Store.Site) (t : Task) : Option Store.Site :=
  match (start t).run serve s with
  | (.ok _, s') => some s'
  | (.error _, _) => none

/-- A task that completes visits each IP. -/
theorem complete_visits {s s' : Store.Site} {t : Task} (h : complete s t = some s') (ip : String) :
    ∃ rs : List IpCheck, rs.map IpCheck.outcome = (t.visit s.db ip).checks ∧
      s'.db.standing ip = (s.db.standing ip).visited (t.visit s.db ip) rs := by
  unfold complete at h
  split at h
  · rename_i response s₁ hrun
    cases h
    exact run_task hrun ip
  · cases h

/-- A success of an IP in a second. -/
def reachedAt (n : Int) : Task := .result (some ⟨"8.8.8.8", some true, some 10, none, none, .text "SNI", some (some (n * 1000))⟩)

end Gwsdb.Web
