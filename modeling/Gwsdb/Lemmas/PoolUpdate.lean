import Gwsdb.Lemmas.History
import Gwsdb.Lemmas.Submissions

/-!
# Inserts first, then the pool

A request inserts its checks before it writes the pool, and a request that has ended after inserting a reachable check of an IP
has written the pool row of that IP (`updated_of_ended`).
-/

namespace Gwsdb.Store

open Interleave (Prog)
open Interleave.Prog (After Event)

/-! ## What an event did -/

/-- The call added a reachable check of the IP. -/
def AddsReachable (ip : String) (ev : Event Call Reply Site) : Prop :=
  ∃ row ∈ (serve ev.call ev.state).2.db.checks.rows, row.ip = ip ∧ row.ok = true ∧ row ∉ ev.state.db.checks.rows

/-- The call wrote the pool row of the IP: a statement of it is for that row, and the row is there afterwards. -/
def UpdatesPool (ip : String) (ev : Event Call Reply Site) : Prop :=
  (∃ stmts, ev.call = .batch stmts ∧ ∃ stmt ∈ stmts, stmt.poolIp? = some ip) ∧ (serve ev.call ev.state).2.db.pool.get? ip ≠ none

/-- The statement inserts a check that satisfies `P`. -/
def Stmt.Inserts (P : NewCheck → Prop) (stmt : Stmt) : Prop := ∃ row, stmt.inserted? = some row ∧ P row

namespace Database

/-- A statement adds a check only if it inserts it. -/
theorem exec_adds {db : Database} {stmt : Stmt} {r : IpCheck} (h : r ∈ (db.exec stmt).2.checks.rows) :
    r ∈ db.checks.rows ∨ stmt.inserted? = some r.toNewCheck := by
  cases hi : stmt.inserted? with
  | some row =>
    rcases exec_insert db hi with heq | heq
    · rw [heq] at h
      exact Or.inl h
    · rw [heq] at h
      rcases IpChecks.mem_insert h with h | ⟨-, rfl⟩
      · exact Or.inl h
      · exact Or.inr rfl
  | none =>
    by_cases hd : ∃ ips k, stmt = .deleteOldChecks ips k
    · obtain ⟨ips, k, rfl⟩ := hd
      exact Or.inl (List.mem_filter.1 h).1
    · rw [exec_checks_of_neither db hi fun ips k heq => hd ⟨ips, k, heq⟩] at h
      exact Or.inl h

/-- A batch adds a check only if one of its statements inserts it. -/
theorem after_adds {stmts : List Stmt} {db : Database} {r : IpCheck} (h : r ∈ (db.after stmts).checks.rows) :
    r ∈ db.checks.rows ∨ ∃ stmt ∈ stmts, stmt.inserted? = some r.toNewCheck := by
  induction stmts generalizing db with
  | nil => exact Or.inl h
  | cons stmt stmts ih =>
    rcases ih h with h | ⟨stmt', hm, hi⟩
    · exact (exec_adds h).imp_right fun hi => ⟨stmt, List.mem_cons_self, hi⟩
    · exact Or.inr ⟨stmt', List.mem_cons_of_mem _ hm, hi⟩

/-- A write of the pool loses no row. -/
theorem writePool_isSome {db : Database} {k ip : String} {f : Option PoolRow → Option PoolRow} (h : db.pool.get? ip ≠ none) :
    (db.writePool k f).2.pool.get? ip ≠ none := by
  rw [get?_writePool]
  split
  · rename_i hk
    subst hk
    cases f (db.pool.get? ip) with
    | none => exact h
    | some row => exact Option.some_ne_none _
  · exact h

/-- A statement other than an eviction loses no row of the pool. -/
theorem exec_isSome {db : Database} {stmt : Stmt} (hne : ∀ ips, stmt ≠ .evict ips) {ip : String} (h : db.pool.get? ip ≠ none) :
    (db.exec stmt).2.pool.get? ip ≠ none := by
  cases hip : stmt.poolIp? with
  | some k =>
    rw [exec_writes db hip]
    exact writePool_isSome h
  | none =>
    cases stmt with
    | evict ips => exact absurd rfl (hne ips)
    | insertCheck row always cutoff =>
      rcases exec_insert db (rfl : (Stmt.insertCheck row always cutoff).inserted? = some row) with heq | heq <;> rw [heq] <;>
        exact h
    | recount ips =>
      show (Keyed.Table.mapRows _ _).get? ip ≠ none
      rw [Keyed.Table.get?_mapRows]
      simpa using h
    | poolUpsert p => cases hip
    | poolFailure k latestTS cutoff => cases hip
    | poolCheck k ts ok rttMs => cases hip
    | poolInsert p => cases hip
    | touchPTR k checkedAt => cases hip
    | _ => exact h

/-- Without an eviction no pool row goes. -/
theorem after_isSome {stmts : List Stmt} (hne : ∀ stmt ∈ stmts, ∀ ips, stmt ≠ .evict ips) {db : Database} {ip : String}
    (h : db.pool.get? ip ≠ none) : (db.after stmts).pool.get? ip ≠ none :=
  after_invariant (I := fun db => db.pool.get? ip ≠ none) (P := fun stmt => ∀ ips, stmt ≠ .evict ips)
    (fun _ _ hstmt hdb => exec_isSome hstmt hdb) hne h

/-- A batch that writes the row of a success has the row afterwards. -/
theorem after_creates {stmts : List Stmt} (hne : ∀ stmt ∈ stmts, ∀ ips, stmt ≠ .evict ips) {ip : String}
    (hcreates : ∃ stmt ∈ stmts, ∀ db : Database, (db.exec stmt).2.pool.get? ip ≠ none) (db : Database) :
    (db.after stmts).pool.get? ip ≠ none := by
  obtain ⟨stmt, hm, hstmt⟩ := hcreates
  obtain ⟨l₁, l₂, rfl⟩ := List.append_of_mem hm
  rw [after_append, after_cons]
  exact after_isSome (fun s hs => hne s (List.mem_append_right _ (List.mem_cons_of_mem _ hs))) (hstmt _)

/-- An upsert leaves a pool row. -/
theorem exec_poolUpsert_isSome (db : Database) (p : PoolSuccess) : (db.exec (.poolUpsert p)).2.pool.get? p.ip ≠ none := by
  rw [exec_writes db (rfl : (Stmt.poolUpsert p).poolIp? = some p.ip), get?_writePool, if_pos rfl]
  exact Option.some_ne_none _

/-- So does an insert. -/
theorem exec_poolInsert_isSome (db : Database) (p : PoolSuccess) : (db.exec (.poolInsert p)).2.pool.get? p.ip ≠ none := by
  rw [exec_writes db (rfl : (Stmt.poolInsert p).poolIp? = some p.ip), get?_writePool, if_pos rfl]
  exact Option.some_ne_none _

/-- The update of a single check changes a row exactly when the pool has one. -/
theorem batch_poolCheck (db : Database) (ip ts : String) (ok : Bool) (rttMs : Int) :
    (db.batch [.bumpPoolRevision, .poolCheck ip ts ok rttMs]).1[1]? = some (if (db.pool.get? ip).isSome then 1 else 0) := by
  show some (((db.exec .bumpPoolRevision).2.exec (.poolCheck ip ts ok rttMs)).1) = _
  rw [exec_writes _ (rfl : (Stmt.poolCheck ip ts ok rttMs).poolIp? = some ip), writePool_fst]
  show some (if (Option.map _ (db.pool.get? ip)).isSome then 1 else 0) = _
  rw [Option.isSome_map]

end Database

theorem serve_batch (stmts : List Stmt) (s : Site) : (serve (.batch stmts) s).2.db = s.db.after stmts :=
  Database.batch_snd s.db stmts

/-- A call that added a reachable check inserted it. -/
theorem AddsReachable.inserts {ip : String} {ev : Event Call Reply Site} (h : AddsReachable ip ev) :
    ∃ stmts, ev.call = .batch stmts ∧ ∃ stmt ∈ stmts, stmt.Inserts fun row => row.ip = ip ∧ row.ok = true := by
  obtain ⟨s, e, r⟩ := ev
  obtain ⟨row, hrow, hip, hok, hnew⟩ := h
  cases e with
  | batch stmts =>
    rw [serve_batch] at hrow
    rcases Database.after_adds hrow with hold | ⟨stmt, hm, hi⟩
    · exact absurd hold hnew
    · exact ⟨stmts, rfl, stmt, hm, row.toNewCheck, hi, hip, hok⟩
  | _ => exact absurd hrow hnew

/-! ## The inserts and the pool updates of each writer -/

/-- The inserts of a batch insert the verdicts of its rows. -/
theorem inserts_insertCheckRows (now : Int) (rows : List CheckRow) :
    (insertCheckRows now rows).Makes (Each (Stmt.Inserts fun new => ∃ row ∈ rows, row.ip = new.ip ∧ row.ok = new.ok)) := by
  refine makes_inChunks (by decide) fun stmts hstmts stmt hm => ?_
  obtain ⟨row, hmem, hrow⟩ := hstmts stmt hm
  obtain ⟨checkedAt, scanMode, -, -, rfl⟩ := insertCheckStmt_ok hrow
  exact ⟨_, rfl, row, hmem, rfl, rfl⟩

/-- The insert of a single check inserts its verdict. -/
theorem inserts_saveRecheckResult (r : RecheckResult) :
    (saveRecheckResult r).Makes (Each (Stmt.Inserts fun new => new.ip = r.ip ∧ new.ok = r.ok)) := by
  have hinsert : (insertRecheck r).Makes (Each (Stmt.Inserts fun new => new.ip = r.ip ∧ new.ok = r.ok)) := by
    refine Prog.makes_ofExcept_bind fun row hrow => ⟨fun stmt hm => ?_, fun _ => trivial⟩
    obtain ⟨hip, hok, -⟩ := recheckRow_ok hrow
    rw [List.mem_singleton.1 hm]
    exact ⟨row, rfl, hip, hok⟩
  unfold saveRecheckResult
  split
  · exact hinsert
  · refine ⟨trivial, fun known => ?_⟩
    cases known with
    | false => trivial
    | true => exact hinsert

/-- A statement about the pool inserts no check. -/
theorem poolIp_not_inserted {stmt : Stmt} {ip : String} (h : stmt.poolIp? = some ip) : stmt.inserted? = none := by
  cases stmt <;> first | rfl | cases h

/-- The pool update of a batch inserts no check. -/
theorem noInsert_updatePoolBatch (now : Int) (rows : List CheckRow) :
    (updatePoolBatch now rows).Makes (Each fun stmt => stmt.inserted? = none) := by
  refine makes_inChunks (by decide) fun stmts hstmts stmt hm => ?_
  rcases List.mem_cons.1 hm with rfl | hm
  · rfl
  obtain ⟨u, -, hu⟩ := hstmts stmt hm
  exact poolIp_not_inserted (poolStmt_poolIp hu)

/-- Nor does that of a single check. -/
theorem noInsert_updatePoolForCheck (ip : String) (ok : Bool) (rttMs : Option Int) (checkedAt : JsDate) (scanMode : Bindable) :
    (updatePoolForCheck ip ok rttMs checkedAt scanMode).Makes (Each fun stmt => stmt.inserted? = none) :=
  each_updatePoolForCheck rfl (fun _ _ => rfl) fun _ _ _ _ => rfl

/-- A quiet statement inserts no check. -/
theorem Stmt.Quiet.not_inserted {stmt : Stmt} (h : stmt.Quiet) : stmt.inserted? = none := by
  cases stmt <;> first | rfl | exact h.elim

/-- A chunked writer that came to its end ran a batch with every row. -/
theorem after_inChunks {α β : Type} {size : Nat} (hsize : 0 < size) {bind : α → Except String β} {statements : List β → List Stmt}
    {rows : List α} {es : List (Event Call Reply Site)} {u : Unit} (h : After (inChunks size bind statements rows) es (.ret u))
    {a : α} (ha : a ∈ rows) : ∃ ev ∈ es, ∃ bound b, ev.call = .batch (statements bound) ∧ b ∈ bound ∧ bind a = .ok b ∧
      ∀ b' ∈ bound, ∃ a' ∈ rows, bind a' = .ok b' := by
  obtain ⟨chunk, hchunk, hac⟩ := Chunks.exists_mem_chunks hsize ha
  obtain ⟨es', hsub, u', h'⟩ := After.forM_ret h hchunk
  obtain ⟨bound, hbound, h''⟩ := After.ofExcept_bind_ret h'
  rcases After.of_call h'' with ⟨-, hq⟩ | ⟨s, r, es'', rfl, -⟩
  · cases hq
  obtain ⟨b, hb, hab⟩ := exists_bound_of_mem (Interleave.mapM_ok_iff.1 hbound) hac
  refine ⟨_, hsub List.mem_cons_self, bound, b, rfl, hb, hab, fun b' hb' => ?_⟩
  obtain ⟨a', ha', hab'⟩ := Interleave.exists_of_mapM_ok hbound hb'
  exact ⟨a', Chunks.mem_of_mem_chunks hsize hchunk ha', hab'⟩
where
  /-- What an element of a list was bound to. -/
  exists_bound_of_mem {α β : Type} {R : α → β → Prop} {as : List α} {bs : List β}
    (h : List.Forall₂ R as bs) {a : α} (ha : a ∈ as) :
      ∃ b ∈ bs, R a b := by
    induction h with
    | nil => cases ha
    | cons hab _ ih =>
      rcases List.mem_cons.1 ha with rfl | ha
      · exact ⟨_, List.mem_cons_self, hab⟩
      · obtain ⟨b, hb, hr⟩ := ih ha
        exact ⟨b, List.mem_cons_of_mem _ hb, hr⟩

/-- The pool update of a batch with a success of an IP has written the row of that IP. -/
theorem updated_of_updatePoolBatch {now : Int} {rows : List CheckRow} {es : List (Event Call Reply Site)} {u : Unit}
    (h : After (updatePoolBatch now rows) es (.ret u)) {row : CheckRow} (hrow : row ∈ rows) (hok : row.ok = true) :
    ∃ ev ∈ es, UpdatesPool row.ip ev := by
  obtain ⟨v, hv, hip, hsuccess⟩ := exists_mem_uniqueRows hrow hok
  obtain ⟨ev, hev, bound, stmt, hcall, hm, hstmt, hbound⟩ := after_inChunks (by decide) h hv
  have hpool := poolStmt_poolIp hstmt
  rw [hip] at hpool
  refine ⟨ev, hev, ⟨_, hcall, stmt, List.mem_cons_of_mem _ hm, hpool⟩, ?_⟩
  rw [hcall, serve_batch]
  refine Database.after_creates ?_ ⟨stmt, List.mem_cons_of_mem _ hm, fun db => ?_⟩ _
  · intro stmt' hm' ips heq
    subst heq
    rcases List.mem_cons.1 hm' with h | h
    · cases h
    · obtain ⟨v', -, hv'⟩ := hbound _ h
      cases poolStmt_poolIp hv'
  · obtain ⟨latestTS, -, ⟨hnone, -⟩ | ⟨s, successTS, scanMode, hs, -, -, rfl⟩⟩ := poolStmt_ok hstmt
    · exact absurd hnone hsuccess
    · rw [← hip]
      exact Database.exec_poolUpsert_isSome db _

/-- The pool update of a single success has written the row of its IP. -/
theorem updated_of_updatePoolForCheck {ip : String} {rttMs : Option Int} {checkedAt : JsDate} {scanMode : Bindable}
    {es : List (Event Call Reply Site)} {u : Unit} (h : After (updatePoolForCheck ip true rttMs checkedAt scanMode) es (.ret u))
    (hreply : ∀ ev ∈ es, ev.reply = (serve ev.call ev.state).1) : ∃ ev ∈ es, UpdatesPool ip ev := by
  obtain ⟨ts, -, h₁⟩ := After.ofExcept_bind_ret h
  rcases After.of_call h₁ with ⟨-, hq⟩ | ⟨s, results, es', rfl, h₂⟩
  · cases hq
  have hresults : results = (s.db.batch [.bumpPoolRevision, .poolCheck ip ts true (rttMs.getD 0)]).1 :=
    hreply _ List.mem_cons_self
  have hchanges : results[1]? = some (if (s.db.pool.get? ip).isSome then 1 else 0) := by
    rw [hresults, Database.batch_poolCheck]
  simp only [Prog.bind, hchanges] at h₂
  cases hpool : s.db.pool.get? ip with
  | some row =>
    refine ⟨_, List.mem_cons_self, ⟨_, rfl, .poolCheck ip ts true (rttMs.getD 0), by simp, rfl⟩, ?_⟩
    rw [serve_batch]
    refine Database.after_isSome ?_ (by rw [hpool]; exact Option.some_ne_none _)
    intro stmt hm ips heq
    subst heq
    simp at hm
  | none =>
    rw [hpool] at h₂
    simp only [Option.isSome_none, Bool.false_eq_true, if_false, true_and, if_true] at h₂
    obtain ⟨mode, -, h₃⟩ := After.ofExcept_bind_ret h₂
    rcases After.of_call h₃ with ⟨-, hq⟩ | ⟨s', results', es'', rfl, -⟩
    · cases hq
    refine ⟨_, List.mem_cons_of_mem _ List.mem_cons_self, ⟨_, rfl, _, List.mem_cons_of_mem _ List.mem_cons_self, rfl⟩, ?_⟩
    rw [serve_batch]
    refine Database.after_creates ?_ ⟨_, List.mem_cons_of_mem _ List.mem_cons_self, fun db =>
      Database.exec_poolInsert_isSome db _⟩ _
    intro stmt hm ips heq
    subst heq
    simp at hm

end Gwsdb.Store

namespace Gwsdb.Web

open Gwsdb.Store
open Interleave (Prog)
open Interleave.Prog (After Event)

/-! ## Requests -/

/-- A program that inserts and then does not insert any more: before an insert it did nothing but insert. -/
theorem inserts_before {α : Type} {p : Program α} {f : α → Program Response}
    (hp : p.Makes (Each fun stmt => stmt.inserted? ≠ none))
    (hf : ∀ a, (f a).Makes (Each fun stmt => stmt.inserted? = none))
    {es : List (Event Store.Call Reply Store.Site)} {stmts : List Stmt}
    {k : List Nat → Program Response} (h : After (p >>= f) es (.call (.batch stmts) k)) {stmt : Stmt} (hm : stmt ∈ stmts)
    (hi : stmt.inserted? ≠ none) : ∀ ev ∈ es, Each (fun stmt => stmt.inserted? ≠ none) ev.call := by
  rcases After.bind_cases h with ⟨p', hp', heq⟩ | ⟨a, es₁, es₂, rfl, -, h₂⟩
  · exact (hp'.makes hp).1
  · exact absurd ((h₂.makes (hf a)).2.1 stmt hm) hi

/-- Before a request inserts a check it has made no batch but of inserts. -/
theorem inserts_first {t : Task} {es : List (Event Store.Call Reply Store.Site)} {stmts : List Stmt}
    {k : List Nat → Program Response}
    (h : After (start t) es (.call (.batch stmts) k)) {stmt : Stmt} (hm : stmt ∈ stmts) (hi : stmt.inserted? ≠ none) :
    ∀ ev ∈ es, Each (fun stmt => stmt.inserted? ≠ none) ev.call := by
  have hinserts : ∀ {P : NewCheck → Prop} {stmt : Stmt}, stmt.Inserts P → stmt.inserted? ≠ none := by
    rintro P stmt ⟨row, hrow, -⟩
    rw [hrow]
    exact Option.some_ne_none _
  have hquiet : ∀ {p : Program Response}, p.Makes (Each Stmt.Quiet) → p.Makes (Each fun stmt => stmt.inserted? = none) :=
    fun hp => hp.mono fun _ h => h.mono fun _ => Stmt.Quiet.not_inserted
  rcases task_cases t with ⟨r, hstores⟩ | ⟨insertAt, poolAt, rows, rest, hingests⟩ | hq
  · obtain ⟨response, hstart⟩ := hstores.starts
    rw [hstart, storeCheck, Prog.bind_assoc] at h
    refine inserts_before ((inserts_saveRecheckResult r).mono fun _ h => h.mono fun _ => hinserts) (fun _ => ?_) h hm hi
    rw [Prog.bind_assoc]
    exact (noInsert_updatePoolForCheck _ _ _ _ _).bind fun _ =>
      hquiet ((quiet_pruneCheckHistory _).bind fun _ => Prog.makes_ret _ _)
  · rw [hingests.starts, ingestRows, Prog.bind_assoc] at h
    refine inserts_before ((inserts_insertCheckRows _ _).mono fun _ h => h.mono fun _ => hinserts) (fun _ => ?_) h hm hi
    exact (noInsert_updatePoolBatch _ _).bind fun _ => hquiet hingests.quiet_rest
  · exact absurd ((h.makes (hquiet hq)).2.1 stmt hm) hi

/-- A request that has ended has written the pool row of every IP it added a reachable check of. -/
theorem updated_of_ended {t : Task} {es : List (Event Store.Call Reply Store.Site)} {response : Response}
    (h : After (start t) es (.ret response))
    (hreply : ∀ ev ∈ es, ev.reply = (serve ev.call ev.state).1) {ip : String}
    {ev : Event Store.Call Reply Store.Site} (hev : ev ∈ es)
    (hadds : AddsReachable ip ev) : ∃ ev ∈ es, UpdatesPool ip ev := by
  obtain ⟨stmts, hcall, stmt, hm, row, hrow, rfl, hok⟩ := hadds.inserts
  have hnot : ∀ {β : Type} {p q : Program β} {es' : List (Event Store.Call Reply Store.Site)},
    p.Makes (Each fun stmt => stmt.inserted? = none) →
      After p es' q → ev ∉ es' := by
    intro β p q es' hp hafter hmem
    have hnone := (hafter.makes hp).1 ev hmem
    rw [hcall] at hnone
    rw [hnone stmt hm] at hrow
    cases hrow
  have hquiet : ∀ {p : Program Response}, p.Makes (Each Stmt.Quiet) → p.Makes (Each fun stmt => stmt.inserted? = none) :=
    fun hp => hp.mono fun _ h => h.mono fun _ => Stmt.Quiet.not_inserted
  rcases task_cases t with ⟨r, hstores⟩ | ⟨insertAt, poolAt, rows, rest, hingests⟩ | hq
  · obtain ⟨resp, hstart⟩ := hstores.starts
    rw [hstart, storeCheck, Prog.bind_assoc] at h
    obtain ⟨_, es₁, es', rfl, h₁, h'⟩ := After.bind_ret h
    rw [Prog.bind_assoc] at h'
    obtain ⟨_, es₂, es₃, rfl, h₂, h₃⟩ := After.bind_ret h'
    have hprune : ev ∉ es₃ := hnot (hquiet ((quiet_pruneCheckHistory _).bind fun _ => Prog.makes_ret _ _)) h₃
    have hpool : ev ∉ es₂ := hnot (noInsert_updatePoolForCheck _ _ _ _ _) h₂
    have hsave : ev ∈ es₁ := by
      rcases List.mem_append.1 hev with h | h
      · exact h
      · exact absurd h (by simp [hprune, hpool])
    have hinserted := (h₁.makes (inserts_saveRecheckResult r)).1 ev hsave
    rw [hcall] at hinserted
    obtain ⟨row', hrow', hip, hrok⟩ := hinserted stmt hm
    obtain rfl : row = row' := Option.some.inj (hrow.symm.trans hrow')
    rw [← hrok, hok] at h₂
    obtain ⟨ev', hev', hupdates⟩ := updated_of_updatePoolForCheck h₂ fun ev hev => hreply ev (by simp [hev])
    exact ⟨ev', by simp [hev'], hip ▸ hupdates⟩
  · rw [hingests.starts, ingestRows, Prog.bind_assoc] at h
    obtain ⟨_, es₁, es', rfl, h₁, h'⟩ := After.bind_ret h
    obtain ⟨_, es₂, es₃, rfl, h₂, h₃⟩ := After.bind_ret h'
    have hprune : ev ∉ es₃ := hnot (hquiet hingests.quiet_rest) h₃
    have hpool : ev ∉ es₂ := hnot (noInsert_updatePoolBatch _ _) h₂
    have hsave : ev ∈ es₁ := by
      rcases List.mem_append.1 hev with h | h
      · exact h
      · exact absurd h (by simp [hprune, hpool])
    have hinserted := (h₁.makes (inserts_insertCheckRows _ _)).1 ev hsave
    rw [hcall] at hinserted
    obtain ⟨row', hrow', r, hr, hip, hrok⟩ := hinserted stmt hm
    obtain rfl : row = row' := Option.some.inj (hrow.symm.trans hrow')
    obtain ⟨ev', hev', hupdates⟩ := updated_of_updatePoolBatch h₂ hr (hrok.trans hok)
    exact ⟨ev', by simp [hev'], hip ▸ hupdates⟩
  · exact absurd hev (hnot (hquiet hq) h)

end Gwsdb.Web
