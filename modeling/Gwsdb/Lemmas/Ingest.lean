import Gwsdb.Lemmas.Coalesce
import Gwsdb.Lemmas.History
import Gwsdb.Lemmas.PoolUpdate

/-!
# A batch of checks, IP by IP

What `insertCheckRows` and `updatePoolBatch` do when they run alone to their ends, seen from one IP: which of its rows come into
`ip_checks` (`run_insertCheckRows`), and what the one pool statement for it makes of its pool row (`run_updatePoolBatch`).
-/

namespace Gwsdb.Store

open Chunks (chunks)
open Interleave (Prog mapM_ok_iff)
open Keyed (Table)

/-! ## Chunked writers -/

/-- The bodies of a chunked writer run one after the other. -/
theorem run_chunks_ok {α β : Type} {bind : α → Except String β} {statements : List β → List Stmt}
    {l : List (List α)} {s s' : Site}
    {u : Unit} (h : (l.forM fun chunk => do
      let bound ← Prog.ofExcept (chunk.mapM bind)
      let _ ← perform (.batch (statements bound)) : Program Unit).run serve s = (.ok u, s')) :
    ∃ bounds, List.Forall₂ (List.Forall₂ fun a b => bind a = .ok b) l bounds ∧
      s' = { s with db := s.db.after (bounds.flatMap statements) } := by
  induction l generalizing s with
  | nil =>
    cases h
    exact ⟨[], List.Forall₂.nil, rfl⟩
  | cons chunk l ih =>
    obtain ⟨_, s₁, h₁, h₂⟩ := Prog.run_bind_ok h
    obtain ⟨bound, s₂, hof, hrun⟩ := Prog.run_bind_ok h₁
    obtain ⟨hbound, rfl⟩ := Prog.run_ofExcept_ok hof
    cases hrun
    obtain ⟨bounds, hbounds, rfl⟩ := ih h₂
    refine ⟨bound :: bounds, List.Forall₂.cons (mapM_ok_iff.1 hbound) hbounds, ?_⟩
    simp only [List.flatMap_cons, Database.after_append, serve, Database.batch_snd]

/-- A chunked writer that completes has bound its rows chunk by chunk and run their statements in order. -/
theorem run_inChunks_ok {α β : Type} {size : Nat} {bind : α → Except String β} {statements : List β → List Stmt} {rows : List α}
    {s s' : Site} {u : Unit} (h : (inChunks size bind statements rows).run serve s = (.ok u, s')) :
    ∃ bounds, List.Forall₂ (List.Forall₂ fun a b => bind a = .ok b) (chunks size rows) bounds ∧
      s' = { s with db := s.db.after (bounds.flatMap statements) } :=
  run_chunks_ok h

/-- Chunks that are bound piece by piece are bound as a whole. -/
theorem forall₂_flatten {α β : Type} {R : α → β → Prop} {as : List (List α)} {bs : List (List β)}
    (h : List.Forall₂ (List.Forall₂ R) as bs) : List.Forall₂ R as.flatten bs.flatten := by
  induction h with
  | nil => exact List.Forall₂.nil
  | cons hab _ ih => exact List.rel_append hab ih

/-- A list whose elements can be bound can be bound. -/
theorem exists_mapM_ok {α β : Type} {bind : α → Except String β} {l : List α} (h : ∀ a ∈ l, ∃ b, bind a = .ok b) :
    ∃ bound, l.mapM bind = .ok bound := by
  induction l with
  | nil => exact ⟨[], rfl⟩
  | cons a l ih =>
    obtain ⟨b, hb⟩ := h a List.mem_cons_self
    obtain ⟨bound, hbound⟩ := ih fun a ha => h a (List.mem_cons_of_mem _ ha)
    exact ⟨b :: bound, mapM_ok_iff.2 (List.Forall₂.cons hb (mapM_ok_iff.1 hbound))⟩

/-- A chunked writer completes when each of its rows can be bound. -/
theorem run_inChunks_of_bind {α β : Type} {size : Nat} (hsize : 0 < size) {bind : α → Except String β}
    {statements : List β → List Stmt}
    {rows : List α} (h : ∀ a ∈ rows, ∃ b, bind a = .ok b) (s : Site) :
    ∃ s', (inChunks size bind statements rows).run serve s = (.ok (), s') := by
  have hchunks : ∀ chunk ∈ chunks size rows, ∃ bound, chunk.mapM bind = .ok bound := by
    intro chunk hchunk
    exact exists_mapM_ok fun a ha => h a (Chunks.mem_of_mem_chunks hsize hchunk ha)
  unfold inChunks
  generalize chunks size rows = l at hchunks
  induction l generalizing s with
  | nil => exact ⟨s, rfl⟩
  | cons chunk l ih =>
    obtain ⟨bound, hbound⟩ := hchunks chunk List.mem_cons_self
    have hbody : (do
        let bound ← Prog.ofExcept (chunk.mapM bind)
        let _ ← perform (.batch (statements bound)) : Program Unit).run serve s =
            (.ok (), (serve (.batch (statements bound)) s).2) := by
      rw [hbound]
      rfl
    obtain ⟨s', hs'⟩ := ih (serve (.batch (statements bound)) s).2 fun c hc => hchunks c (List.mem_cons_of_mem _ hc)
    exact ⟨s', (Prog.run_bind_of_ok hbody).trans hs'⟩

/-- A chunked writer that stopped with an error has run the chunks before one with a row that cannot be bound. -/
theorem run_inChunks_error {α β : Type} {size : Nat} {bind : α → Except String β}
    {statements : List β → List Stmt} {rows : List α}
    {s s' : Site} {e : String} (h : (inChunks size bind statements rows).run serve s = (.error e, s')) :
    ∃ l₁ chunk l₂ bounds, chunks size rows = l₁ ++ chunk :: l₂ ∧ List.Forall₂ (List.Forall₂ fun a b => bind a = .ok b) l₁ bounds ∧
      (∃ a ∈ chunk, ∀ b, bind a ≠ .ok b) ∧ s' = { s with db := s.db.after (bounds.flatMap statements) } := by
  unfold inChunks at h
  generalize chunks size rows = l at h
  induction l generalizing s with
  | nil => cases h
  | cons chunk l ih =>
    rcases Prog.run_bind_error h with h₁ | ⟨_, s₁, h₁, h₂⟩
    · refine ⟨[], chunk, l, [], rfl, List.Forall₂.nil, ?_⟩
      rcases Prog.run_bind_error h₁ with hof | ⟨bound, s₂, -, hrun⟩
      · obtain ⟨hbound, rfl⟩ := Prog.run_ofExcept_error hof
        refine ⟨?_, rfl⟩
        by_contra hall
        push Not at hall
        obtain ⟨bound, hok⟩ := exists_mapM_ok hall
        rw [hok] at hbound
        cases hbound
      · cases hrun
    · obtain ⟨bound, s₂, hof, hrun⟩ := Prog.run_bind_ok h₁
      obtain ⟨hbound, rfl⟩ := Prog.run_ofExcept_ok hof
      cases hrun
      obtain ⟨l₁, bad, l₂, bounds, rfl, hbounds, hbad, rfl⟩ := ih h₂
      refine ⟨chunk :: l₁, bad, l₂, bound :: bounds, rfl, List.Forall₂.cons (mapM_ok_iff.1 hbound) hbounds, hbad, ?_⟩
      simp only [List.flatMap_cons, Database.after_append, serve, Database.batch_snd]

/-- What an element was bound from. -/
theorem exists_of_forall₂_mem {α β : Type} {R : α → β → Prop} {as : List α} {bs : List β} (h : List.Forall₂ R as bs) {b : β}
    (hb : b ∈ bs) : ∃ a ∈ as, R a b := by
  induction h with
  | nil => cases hb
  | cons hab _ ih =>
    rcases List.mem_cons.1 hb with rfl | hb
    · exact ⟨_, List.mem_cons_self, hab⟩
    · obtain ⟨a, ha, hr⟩ := ih hb
      exact ⟨a, List.mem_cons_of_mem _ ha, hr⟩

/-! ## The history of an IP -/

/-- The checks of an IP in the order they came in, without their ids. -/
def IpChecks.history (t : IpChecks) (ip : String) : List NewCheck := (t.of ip).map (·.toNewCheck)

/-- The history after an insert: a time that is there stays as it is. -/
def addCheck (history : List NewCheck) (row : NewCheck) : List NewCheck :=
  if ∃ r ∈ history, r.checkedAt = row.checkedAt then history else history ++ [row]

namespace IpChecks

/-- The history of an IP is its rows without their ids. -/
theorem mem_history {t : IpChecks} {ip : String} {new : NewCheck} :
    new ∈ t.history ip ↔ ∃ r ∈ t.rows, r.ip = ip ∧ r.toNewCheck = new := by
  unfold history
  simp only [List.mem_map, mem_of, and_assoc]

/-- A table has a key where the history of its IP has the time. -/
theorem hasKey_iff {t : IpChecks} {row : NewCheck} : t.HasKey row ↔ ∃ r ∈ t.history row.ip, r.checkedAt = row.checkedAt := by
  constructor
  · rintro ⟨r, hr, hip, heq⟩
    exact ⟨_, mem_history.2 ⟨r, hr, hip, rfl⟩, heq⟩
  · rintro ⟨new, hnew, heq⟩
    obtain ⟨r, hr, hip, rfl⟩ := mem_history.1 hnew
    exact ⟨r, hr, hip, heq⟩

/-- An insert adds to the history of its IP. -/
theorem history_insert (t : IpChecks) (row : NewCheck) (ip : String) :
    (t.insert row).history ip = if row.ip = ip then addCheck (t.history ip) row else t.history ip := by
  by_cases hkey : t.HasKey row
  · rw [insert_of_hasKey hkey]
    split
    · rename_i hip
      rw [addCheck, if_pos]
      rw [hasKey_iff, hip] at hkey
      exact hkey
    · rfl
  · rw [insert_of_not_hasKey hkey, history, append_of]
    split
    · rename_i hip
      rw [addCheck, if_neg, List.map_append]
      · rfl
      · rw [hasKey_iff, hip] at hkey
        exact hkey
    · rfl

end IpChecks

/-! ## Inserts -/

/-- The statement inserts its row if the row is new. -/
def Database.opens (db : Database) : Stmt → Bool
  | .insertCheck row always cutoff => always || (db.pool.get? row.ip).any (·.failureGate cutoff)
  | .insertRecheck _ => true
  | _ => false

/-- The rows for an IP that the statements insert. -/
def Database.newsOf (db : Database) (ip : String) (stmts : List Stmt) : List NewCheck :=
  ((stmts.filter db.opens).filterMap Stmt.inserted?).filter fun new => new.ip = ip

namespace Database

/-- An insert inserts its row where its gate is open. -/
theorem exec_insert_eq (db : Database) {stmt : Stmt} {row : NewCheck} (h : stmt.inserted? = some row) :
    (db.exec stmt).2 = if db.opens stmt then { db with checks := db.checks.insert row } else db := by
  cases stmt <;> cases h
  · rename_i always cutoff
    have hexec : db.exec (.insertCheck row always cutoff) =
        if db.opens (.insertCheck row always cutoff) = true then db.insertRow row else (0, db) := rfl
    rw [hexec]
    by_cases hopen : db.opens (.insertCheck row always cutoff) = true
    · rw [if_pos hopen, if_pos hopen]
      rfl
    · rw [if_neg hopen, if_neg hopen]
  · rfl

/-- Inserts add to the history of an IP the rows for it that they let in. -/
theorem after_inserts_history {stmts : List Stmt} (h : ∀ stmt ∈ stmts, stmt.inserted?.isSome) (db : Database) (ip : String) :
    (db.after stmts).checks.history ip = (db.newsOf ip stmts).foldl addCheck (db.checks.history ip) := by
  induction stmts generalizing db with
  | nil => rfl
  | cons stmt stmts ih =>
    have hrest : ∀ s ∈ stmts, s.inserted?.isSome := fun s hs => h s (List.mem_cons_of_mem _ hs)
    obtain ⟨row, hrow⟩ := Option.isSome_iff_exists.1 (h stmt List.mem_cons_self)
    rw [after_cons, exec_insert_eq db hrow, ih hrest]
    cases ho : db.opens stmt with
    | false =>
      rw [if_neg (by simp)]
      simp only [newsOf, List.filter_cons, ho, Bool.false_eq_true, if_false]
    | true =>
      rw [if_pos rfl]
      have hnews : newsOf { db with checks := db.checks.insert row } ip stmts = newsOf db ip stmts := rfl
      rw [hnews, IpChecks.history_insert]
      simp only [newsOf, List.filter_cons, ho, if_true, List.filterMap_cons, hrow]
      by_cases hip : row.ip = ip
      · rw [if_pos hip, if_pos (decide_eq_true hip), List.foldl_cons]
      · rw [if_neg hip, if_neg (by simpa using hip)]

/-- Each check that comes in is in the history after, or one with its time is. -/
theorem mem_foldl_addCheck (history : List NewCheck) {news : List NewCheck} {new : NewCheck} (h : new ∈ news) :
    ∃ r ∈ news.foldl addCheck history, r.checkedAt = new.checkedAt := by
  induction news generalizing history with
  | nil => cases h
  | cons a news ih =>
    rw [List.foldl_cons]
    rcases List.mem_cons.1 h with rfl | h
    · have hkeep : ∀ r ∈ addCheck history new, r ∈ news.foldl addCheck (addCheck history new) :=
        fun r hr => mem_foldl_of_mem hr
      by_cases hthere : ∃ r ∈ history, r.checkedAt = new.checkedAt
      · obtain ⟨r, hr, heq⟩ := hthere
        exact ⟨r, hkeep r (by rw [addCheck, if_pos ⟨r, hr, heq⟩]; exact hr), heq⟩
      · exact ⟨new, hkeep new (by rw [addCheck, if_neg hthere]; simp), rfl⟩
    · exact ih _ h
where
  mem_foldl_of_mem {history news : List NewCheck} {r : NewCheck} (h : r ∈ history) : r ∈ news.foldl addCheck history := by
    induction news generalizing history with
    | nil => exact h
    | cons a news ih =>
      refine ih ?_
      unfold addCheck
      split
      · exact h
      · exact List.mem_append_left _ h

/-- A row that inserts let in is there after them. -/
theorem hasKey_after_inserts {stmts : List Stmt} (h : ∀ stmt ∈ stmts, stmt.inserted?.isSome) (db : Database) {stmt : Stmt}
    (hm : stmt ∈ stmts) {row : NewCheck} (hrow : stmt.inserted? = some row) (hopen : db.opens stmt = true) :
    (db.after stmts).checks.HasKey row := by
  have hnew : row ∈ db.newsOf row.ip stmts := by
    refine List.mem_filter.2 ⟨List.mem_filterMap.2 ⟨stmt, List.mem_filter.2 ⟨hm, hopen⟩, hrow⟩, decide_eq_true rfl⟩
  obtain ⟨r, hr, hat⟩ := mem_foldl_addCheck (db.checks.history row.ip) hnew
  rw [← after_inserts_history h db row.ip] at hr
  exact IpChecks.hasKey_iff.2 ⟨r, hr, hat⟩

/-- Inserts change nothing exactly when each row they let in is there already. -/
theorem after_inserts_eq_self_iff {stmts : List Stmt} (h : ∀ stmt ∈ stmts, stmt.inserted?.isSome) (db : Database) :
    (db.after stmts).checks = db.checks ↔
      ∀ stmt ∈ stmts, ∀ row, stmt.inserted? = some row → db.opens stmt = true → db.checks.HasKey row := by
  constructor
  · intro heq stmt hm row hrow hopen
    rw [← heq]
    exact hasKey_after_inserts h db hm hrow hopen
  · intro hall
    induction stmts with
    | nil => rfl
    | cons stmt stmts ih =>
      obtain ⟨row, hrow⟩ := Option.isSome_iff_exists.1 (h stmt List.mem_cons_self)
      have hself : (db.exec stmt).2 = db := by
        rw [exec_insert_eq db hrow]
        split
        · rename_i hopen
          rw [IpChecks.insert_of_hasKey (hall stmt List.mem_cons_self row hrow hopen)]
        · rfl
      rw [after_cons, hself]
      exact ih (fun s hs => h s (List.mem_cons_of_mem _ hs)) fun s hs => hall s (List.mem_cons_of_mem _ hs)

end Database

/-- What is stored of a row. -/
structure IsBound (row : CheckRow) (new : NewCheck) : Prop where
  ip : new.ip = row.ip
  ok : new.ok = row.ok
  rttMs : new.rttMs = row.rttMs
  reason : new.reason = row.reason
  detail : new.detail = row.detail
  checkedAt : toSQLiteDateTime row.checkedAt = .ok new.checkedAt
  scanMode : row.scanMode.bind = .ok new.scanMode

/-- A batch lets the rows of an IP in: it has a success of the IP, or the failure gate of the pool row is open. -/
def Database.letsIn (db : Database) (cutoff : String) (rows : List CheckRow) (ip : String) : Bool :=
  rows.any (fun row => row.ok && decide (row.ip = ip)) || (db.pool.get? ip).any (·.failureGate cutoff)

/-- An IP is successful where a row of it is. -/
theorem mem_successfulIPs (rows : List CheckRow) (ip : String) :
    decide (ip ∈ (rows.filter (·.ok)).map (·.ip)) = rows.any fun row => row.ok && decide (row.ip = ip) := by
  rw [Bool.eq_iff_iff, decide_eq_true_iff]
  simp [List.mem_map, List.mem_filter, List.any_eq_true, and_assoc]

/-- The statement of a row of a batch lets the row in as the batch does. -/
theorem opens_bound (db : Database) {cutoff : String} {all : List CheckRow} {row : CheckRow} (hrow : row ∈ all) {stmt : Stmt}
    (h : insertCheckStmt ((all.filter (·.ok)).map (·.ip)) cutoff row = .ok stmt) : db.opens stmt =
        db.letsIn cutoff all row.ip := by
  obtain ⟨checkedAt, scanMode, -, -, rfl⟩ := insertCheckStmt_ok h
  have hok : row.ok = true → all.any (fun r => r.ok && decide (r.ip = row.ip)) = true := by
    intro hok
    exact List.any_eq_true.2 ⟨row, hrow, by simp [hok]⟩
  simp only [Database.opens, Database.letsIn, mem_successfulIPs]
  cases hr : row.ok with
  | false => rfl
  | true => rw [hok hr, Bool.true_or, Bool.true_or]

/-- Statements bound from rows are inserts. -/
theorem inserts_of_bound {ips : List String} {cutoff : String} {rows : List CheckRow} {stmts : List Stmt}
    (h : List.Forall₂ (fun row stmt => insertCheckStmt ips cutoff row = .ok stmt) rows stmts) :
    ∀ stmt ∈ stmts, stmt.inserted?.isSome := by
  intro stmt hm
  obtain ⟨row, -, hrow⟩ := exists_of_forall₂_mem h hm
  obtain ⟨_, _, -, -, rfl⟩ := insertCheckStmt_ok hrow
  rfl

/-- The rows that statements bound from rows insert for an IP: all of its rows or none. -/
theorem newsOf_bound (db : Database) {cutoff : String} {all rows : List CheckRow}
    (hall : ∀ row ∈ rows, row ∈ all) {stmts : List Stmt}
    (h : List.Forall₂ (fun row stmt => insertCheckStmt ((all.filter (·.ok)).map (·.ip)) cutoff row = .ok stmt) rows stmts)
    (ip : String) : ∃ news, List.Forall₂ IsBound (rowsOf rows ip) news ∧
      db.newsOf ip stmts = if db.letsIn cutoff all ip then news else [] := by
  induction h with
  | nil => exact ⟨[], List.Forall₂.nil, by split <;> rfl⟩
  | @cons row stmt rows stmts hrow _ ih =>
    obtain ⟨news, hnews, heq⟩ := ih fun r hr => hall r (List.mem_cons_of_mem _ hr)
    have hopens := opens_bound db (hall row List.mem_cons_self) hrow
    obtain ⟨checkedAt, scanMode, hd, hm, rfl⟩ := insertCheckStmt_ok hrow
    by_cases hip : row.ip = ip
    · refine ⟨⟨row.ip, row.ok, row.rttMs, row.reason, row.detail, checkedAt, scanMode⟩ :: news, ?_, ?_⟩
      · rw [rowsOf, List.filter_cons_of_pos (by simpa using hip)]
        exact List.Forall₂.cons ⟨rfl, rfl, rfl, rfl, rfl, hd, hm⟩ hnews
      · unfold Database.newsOf at heq ⊢
        rw [List.filter_cons, hopens, hip]
        cases hlets : db.letsIn cutoff all ip with
        | false =>
          rw [hlets] at heq
          simpa using heq
        | true =>
          rw [hlets] at heq
          simp only [if_true] at heq ⊢
          simp only [List.filterMap_cons, Stmt.inserted?, List.filter_cons, decide_true, if_true, heq]
    · refine ⟨news, ?_, ?_⟩
      · rw [rowsOf, List.filter_cons_of_neg (by simpa using hip)]
        exact hnews
      · rw [← heq]
        unfold Database.newsOf
        rw [List.filter_cons]
        split
        · simp only [List.filterMap_cons, Stmt.inserted?, List.filter_cons]
          rw [if_neg (by simpa using hip)]
        · rfl

/-- `insertCheckRows` run to its end: the pool stays, and the rows of each IP come in together or not at all. -/
theorem run_insertCheckRows {now : Int} {rows : List CheckRow} {s s' : Site} {u : Unit}
    (h : (insertCheckRows now rows).run serve s = (.ok u, s')) :
    (∃ checks, s' = { s with db := { s.db with checks := checks } }) ∧
      ∀ ip, ∃ news, List.Forall₂ IsBound (rowsOf rows ip) news ∧ s'.db.checks.history ip =
        if s.db.letsIn (dedupCutoff now) rows ip then news.foldl addCheck (s.db.checks.history ip)
            else s.db.checks.history ip := by
  obtain ⟨bounds, hbounds, rfl⟩ := run_inChunks_ok h
  have hflat := forall₂_flatten hbounds
  rw [Chunks.chunks_flatten (by decide), ← List.flatMap_id] at hflat
  have hinserts := inserts_of_bound hflat
  refine ⟨?_, fun ip => ?_⟩
  · obtain ⟨checks, heq⟩ := Database.after_inserts hinserts s.db
    exact ⟨checks, by rw [heq]⟩
  · obtain ⟨news, hnews, heq⟩ := newsOf_bound s.db (fun _ hr => hr) hflat ip
    refine ⟨news, hnews, ?_⟩
    show (s.db.after (bounds.flatMap id)).checks.history ip = _
    rw [Database.after_inserts_history hinserts, heq]
    split <;> rfl

/-! ## Rows that can be bound -/

/-- The values of a row can be bound. -/
def CheckRow.Binds (row : CheckRow) : Prop := (∃ ts, toSQLiteDateTime row.checkedAt = .ok ts) ∧
    ∃ mode, row.scanMode.bind = .ok mode

/-- A row that can be bound has its statement. -/
theorem exists_insertCheckStmt {row : CheckRow} (h : row.Binds) (ips : List String) (cutoff : String) :
    ∃ stmt, insertCheckStmt ips cutoff row = .ok stmt := by
  obtain ⟨⟨ts, hts⟩, mode, hmode⟩ := h
  unfold insertCheckStmt
  rw [hts, hmode]
  exact ⟨_, rfl⟩

/-- The pool statement of an entry of rows that can be bound. -/
theorem exists_poolStmt {rows : List CheckRow} (h : ∀ row ∈ rows, row.Binds) {u : UniqueRow} (hu : u ∈ uniqueRows rows)
    (cutoff : String) : ∃ stmt, poolStmt cutoff u = .ok stmt := by
  have hunique := isUnique _ (mem_uniqueRows hu)
  obtain ⟨⟨latestTS, hlatest⟩, -⟩ := h u.latest (mem_rowsOf.1 (mem_keptRows hunique.latest_mem)).1
  unfold poolStmt
  rw [hlatest]
  cases hs : u.success with
  | none => exact ⟨_, rfl⟩
  | some success =>
    obtain ⟨⟨successTS, hsuccess⟩, mode, hmode⟩ := h success (success_of_mem_uniqueRows hu hs).1
    simp only [hsuccess, hmode]
    exact ⟨_, rfl⟩

/-- The rows of inserts that complete could be bound. -/
theorem binds_of_run {now : Int} {rows : List CheckRow} {s s' : Site} {u : Unit}
    (h : (insertCheckRows now rows).run serve s = (.ok u, s')) : ∀ row ∈ rows, row.Binds := by
  obtain ⟨bounds, hbounds, -⟩ := run_inChunks_ok h
  have hflat := forall₂_flatten hbounds
  rw [Chunks.chunks_flatten (by decide)] at hflat
  intro row hrow
  obtain ⟨stmt, -, hstmt⟩ := exists_of_forall₂_mem hflat.flip hrow
  obtain ⟨ts, mode, hts, hmode, -⟩ := insertCheckStmt_ok hstmt
  exact ⟨⟨ts, hts⟩, mode, hmode⟩

/-- Once the rows of a batch are inserted, its pool update completes too. -/
theorem exists_run_updatePoolBatch {t₁ : Int} {rows : List CheckRow} {s s₁ : Site} {u : Unit}
    (h : (insertCheckRows t₁ rows).run serve s = (.ok u, s₁)) (t₂ : Int) :
    ∃ s₂, (updatePoolBatch t₂ rows).run serve s₁ = (.ok (), s₂) :=
  run_inChunks_of_bind (by decide) (fun _ hu => exists_poolStmt (binds_of_run h) hu _) s₁

/-! ## The pool -/

/-- Statements of the pool that are for other IPs leave the pool row of an IP alone, and all of them leave the checks alone. -/
theorem after_pool_frame {stmts : List Stmt} {ip : String}
    (h : ∀ stmt ∈ stmts, stmt = .bumpPoolRevision ∨ ∃ k, k ≠ ip ∧ stmt.poolIp? = some k) (db : Database) :
    (db.after stmts).checks = db.checks ∧ (db.after stmts).pool.get? ip = db.pool.get? ip ∧
        db.version ≤ (db.after stmts).version := by
  refine Database.after_invariant (I := fun db' => db'.checks = db.checks ∧
    db'.pool.get? ip = db.pool.get? ip ∧ db.version ≤ db'.version)
    ?_ h ⟨rfl, rfl, le_refl _⟩
  rintro db' stmt (rfl | ⟨k, hk, hip⟩) ⟨hchecks, hpool, hversion⟩
  · exact ⟨hchecks, hpool, hversion.trans (Nat.le_succ _)⟩
  · rw [Database.exec_writes db' hip, Database.writePool_checks, Database.get?_writePool, Database.writePool_version,
      if_neg (Ne.symm hk)]
    exact ⟨hchecks, hpool, hversion⟩

/-- The pool row of an IP after statements of which one is for it: what that one makes of the row, stamped with a new version. -/
theorem after_pool_one {l₁ l₂ : List Stmt} {stmt : Stmt} {ip : String} (hip : stmt.poolIp? = some ip)
    (h₁ : ∀ stmt ∈ l₁, stmt = .bumpPoolRevision ∨ ∃ k, k ≠ ip ∧ stmt.poolIp? = some k)
    (h₂ : ∀ stmt ∈ l₂, stmt = .bumpPoolRevision ∨ ∃ k, k ≠ ip ∧ stmt.poolIp? = some k) (hbump : .bumpPoolRevision ∈ l₁)
    (db : Database) : ∃ v, db.version < v ∧ (db.after (l₁ ++ stmt :: l₂)).pool.get? ip =
      ((db.rewrite stmt (db.pool.get? ip)).map fun row => { row with revision := v }).or (db.pool.get? ip) := by
  obtain ⟨hchecks, hpool, -⟩ := after_pool_frame h₁ db
  have hversion : db.version < (db.after l₁).version := by
    obtain ⟨a, b, rfl⟩ := List.append_of_mem hbump
    rw [Database.after_append, Database.after_cons]
    have ha := (after_pool_frame (fun s hs => h₁ s (List.mem_append_left _ hs)) db).2.2
    have hb := (after_pool_frame (fun s hs => h₁ s (List.mem_append_right _ (List.mem_cons_of_mem _ hs)))
      ((db.after a).exec .bumpPoolRevision).2).2.2
    have hstep : ((db.after a).exec .bumpPoolRevision).2.version = (db.after a).version + 1 := rfl
    omega
  refine ⟨(db.after l₁).version, hversion, ?_⟩
  rw [Database.after_append, Database.after_cons, (after_pool_frame h₂ _).2.1,
    Database.exec_writes _ hip, Database.get?_writePool,
    if_pos rfl, hpool, Database.rewrite_congr hip (congrArg (IpChecks.of · ip) hchecks)]

/-- An IP has one entry in a batch. -/
theorem uniqueRows_pairwise (rows : List CheckRow) : (uniqueRows rows).Pairwise fun u v => u.latest.ip ≠ v.latest.ip := by
  have hkeys : ∀ e ∈ (uniqueTable rows).entries, e.2.latest.ip = e.1 := by
    rintro ⟨ip, u⟩ hm
    have hget := (Table.mem_entries_iff _ _ _).1 hm
    rw [get?_uniqueTable] at hget
    exact (mem_rowsOf.1 (mem_keptRows (isUnique _ hget).latest_mem)).2
  rw [uniqueRows_eq, List.pairwise_map]
  have hnodup := List.pairwise_map.1 (uniqueTable rows).nodupKeys
  refine hnodup.imp_of_mem fun {e f} he hf hne heq => hne ?_
  rw [← hkeys e he, ← hkeys f hf, heq]

/-- The entry of an IP is the one with its text. -/
theorem uniqueOf_eq_some_iff {rows : List CheckRow} {ip : String} {u : UniqueRow} :
    uniqueOf (keptRows (rowsOf rows ip)) = some u ↔ u ∈ uniqueRows rows ∧ u.latest.ip = ip := by
  constructor
  · intro h
    rw [uniqueRows_eq]
    refine ⟨List.mem_map.2 ⟨(ip, u), (Table.mem_entries_iff _ _ _).2 (by rw [get?_uniqueTable]; exact h), rfl⟩, ?_⟩
    exact (mem_rowsOf.1 (mem_keptRows (isUnique _ h).latest_mem)).2
  · rintro ⟨hu, rfl⟩
    exact mem_uniqueRows hu

/-- Of bound lists of which one element is singled out, the parts before and after it. -/
theorem forall₂_split {α β : Type} {R : α → β → Prop} {as : List α} {bs : List β}
    (h : List.Forall₂ R as bs) {a : α} (ha : a ∈ as) :
    ∃ a₁ a₂ b₁ b b₂, as = a₁ ++ a :: a₂ ∧ bs = b₁ ++ b :: b₂ ∧ List.Forall₂ R a₁ b₁ ∧ R a b ∧ List.Forall₂ R a₂ b₂ := by
  induction h with
  | nil => cases ha
  | @cons x y xs ys hxy hrest ih =>
    rcases List.mem_cons.1 ha with rfl | ha
    · exact ⟨[], xs, [], y, ys, rfl, rfl, List.Forall₂.nil, hxy, hrest⟩
    · obtain ⟨a₁, a₂, b₁, b, b₂, rfl, rfl, h₁, hab, h₂⟩ := ih ha
      exact ⟨x :: a₁, a₂, y :: b₁, b, b₂, rfl, rfl, List.Forall₂.cons hxy h₁, hab, h₂⟩

/-- The statements bound from entries of other IPs are not for an IP. -/
theorem foreign_of_bound {cutoff ip : String} {us : List UniqueRow} {stmts : List Stmt}
    (h : List.Forall₂ (fun u stmt => poolStmt cutoff u = .ok stmt) us stmts) (hip : ∀ u ∈ us, u.latest.ip ≠ ip) :
    ∀ stmt ∈ stmts, stmt = .bumpPoolRevision ∨ ∃ k, k ≠ ip ∧ stmt.poolIp? = some k := by
  intro stmt hm
  obtain ⟨u, hu, hstmt⟩ := exists_of_forall₂_mem h hm
  exact Or.inr ⟨u.latest.ip, hip u hu, poolStmt_poolIp hstmt⟩

/-- The statements of entries of other IPs leave an IP alone. -/
theorem foreign_of_chunks {cutoff ip : String} {chunks : List (List UniqueRow)} {bounds : List (List Stmt)}
    (h : List.Forall₂ (List.Forall₂ fun u stmt => poolStmt cutoff u = .ok stmt) chunks bounds)
    (hip : ∀ u ∈ chunks.flatten, u.latest.ip ≠ ip) :
    ∀ stmt ∈ bounds.flatMap (.bumpPoolRevision :: ·), stmt = .bumpPoolRevision ∨ ∃ k, k ≠ ip ∧ stmt.poolIp? = some k := by
  intro stmt hm
  obtain ⟨bound, hbound, hm⟩ := List.mem_flatMap.1 hm
  rcases List.mem_cons.1 hm with rfl | hm
  · exact Or.inl rfl
  obtain ⟨chunk, hchunk, hforall⟩ := exists_of_forall₂_mem h hbound
  exact foreign_of_bound hforall (fun u hu => hip u (List.mem_flatten.2 ⟨chunk, hchunk, hu⟩)) stmt hm

/-- Chunks of entries leave the checks alone. -/
theorem after_poolChunks_checks {cutoff : String} {cs : List (List UniqueRow)} {bounds : List (List Stmt)}
    (h : List.Forall₂ (List.Forall₂ fun u stmt => poolStmt cutoff u = .ok stmt) cs bounds) (db : Database) :
    (db.after (bounds.flatMap (.bumpPoolRevision :: ·))).checks = db.checks := by
  refine Database.after_invariant (I := fun db' => db'.checks = db.checks)
    (P := fun stmt => stmt = .bumpPoolRevision ∨ stmt.poolIp?.isSome) ?_ (fun stmt hm => ?_) rfl
  · rintro db' stmt (rfl | hip) hchecks
    · exact hchecks
    · obtain ⟨ip, hip⟩ := Option.isSome_iff_exists.1 hip
      rw [Database.exec_writes db' hip, Database.writePool_checks]
      exact hchecks
  · obtain ⟨bound, hbound, hm⟩ := List.mem_flatMap.1 hm
    refine (List.mem_cons.1 hm).imp id fun hm => ?_
    obtain ⟨chunk, -, hforall⟩ := exists_of_forall₂_mem h hbound
    obtain ⟨u, -, hstmt⟩ := exists_of_forall₂_mem hforall hm
    rw [poolStmt_poolIp hstmt]
    rfl

/-- Chunks of entries of different IPs make of the pool row of an IP what the statement of its entry makes of it. -/
theorem after_poolChunks {cutoff : String} {cs : List (List UniqueRow)} {bounds : List (List Stmt)}
    (hpair : cs.flatten.Pairwise fun u v => u.latest.ip ≠ v.latest.ip)
    (h : List.Forall₂ (List.Forall₂ fun u stmt => poolStmt cutoff u = .ok stmt) cs bounds) (db : Database) {u : UniqueRow}
    (hu : u ∈ cs.flatten) : ∃ stmt v, poolStmt cutoff u = .ok stmt ∧ db.version < v ∧
      (db.after (bounds.flatMap (.bumpPoolRevision :: ·))).pool.get? u.latest.ip =
        ((db.rewrite stmt (db.pool.get? u.latest.ip)).map fun row => { row with revision := v }).or
            (db.pool.get? u.latest.ip) := by
  obtain ⟨chunk, hchunk, huc⟩ := List.mem_flatten.1 hu
  obtain ⟨c₁, c₂, b₁, bound, b₂, rfl, rfl, h₁, hb, h₂⟩ := forall₂_split h hchunk
  obtain ⟨a₁, a₂, d₁, stmt, d₂, rfl, rfl, hd₁, hstmt, hd₂⟩ := forall₂_split hb huc
  rw [List.flatten_append, List.flatten_cons, List.append_assoc, List.cons_append, ← List.append_assoc] at hpair
  have hbefore : ∀ u' ∈ c₁.flatten ++ a₁, u'.latest.ip ≠ u.latest.ip := by
    intro u' hu'
    exact (List.pairwise_append.1 hpair).2.2 u' hu' u List.mem_cons_self
  have hafter : ∀ u' ∈ a₂ ++ c₂.flatten, u'.latest.ip ≠ u.latest.ip := by
    intro u' hu'
    exact ((List.pairwise_cons.1 (List.pairwise_append.1 hpair).2.1).1 u' hu').symm
  have hstmts : (b₁ ++ (d₁ ++ stmt :: d₂) :: b₂).flatMap (.bumpPoolRevision :: ·) =
      (b₁.flatMap (.bumpPoolRevision :: ·) ++ .bumpPoolRevision :: d₁) ++ stmt ::
          (d₂ ++ b₂.flatMap (.bumpPoolRevision :: ·)) := by
    simp [List.flatMap_append, List.flatMap_cons]
  have hl₁ : ∀ st ∈ b₁.flatMap (.bumpPoolRevision :: ·) ++ .bumpPoolRevision :: d₁,
      st = .bumpPoolRevision ∨ ∃ k, k ≠ u.latest.ip ∧ st.poolIp? = some k := by
    intro st hm
    rcases List.mem_append.1 hm with hm | hm
    · exact foreign_of_chunks h₁ (fun u' hu' => hbefore u' (List.mem_append_left _ hu')) st hm
    rcases List.mem_cons.1 hm with rfl | hm
    · exact Or.inl rfl
    · exact foreign_of_bound hd₁ (fun u' hu' => hbefore u' (List.mem_append_right _ hu')) st hm
  have hl₂ : ∀ st ∈ d₂ ++ b₂.flatMap (.bumpPoolRevision :: ·), st = .bumpPoolRevision ∨
      ∃ k, k ≠ u.latest.ip ∧ st.poolIp? = some k := by
    intro st hm
    rcases List.mem_append.1 hm with hm | hm
    · exact foreign_of_bound hd₂ (fun u' hu' => hafter u' (List.mem_append_left _ hu')) st hm
    · exact foreign_of_chunks h₂ (fun u' hu' => hafter u' (List.mem_append_right _ hu')) st hm
  obtain ⟨v, hv, hget⟩ := after_pool_one (poolStmt_poolIp hstmt) hl₁ hl₂ (by simp) db
  rw [hstmts]
  exact ⟨stmt, v, hstmt, hv, hget⟩

/-- `updatePoolBatch` run to its end: the checks stay; the pool row of an IP without an entry stays, and that of an IP with one is
what its statement makes of it. -/
theorem run_updatePoolBatch {now : Int} {rows : List CheckRow} {s s' : Site} {u : Unit}
    (h : (updatePoolBatch now rows).run serve s = (.ok u, s')) (ip : String) :
    s'.db.checks = s.db.checks ∧
      match uniqueOf (keptRows (rowsOf rows ip)) with
      | none => s'.db.pool.get? ip = s.db.pool.get? ip
      | some u => ∃ stmt v, poolStmt (dedupCutoff now) u = .ok stmt ∧ s.db.version < v ∧ s'.db.pool.get? ip =
        ((s.db.rewrite stmt (s.db.pool.get? ip)).map fun row => { row with revision := v }).or (s.db.pool.get? ip) := by
  obtain ⟨bounds, hbounds, rfl⟩ := run_inChunks_ok h
  have hflat : (chunks POOL_UPSERT_CHUNK (uniqueRows rows)).flatten = uniqueRows rows := Chunks.chunks_flatten (by decide) _
  refine ⟨after_poolChunks_checks hbounds s.db, ?_⟩
  cases hu : uniqueOf (keptRows (rowsOf rows ip)) with
  | none =>
    have hothers : ∀ u ∈ (chunks POOL_UPSERT_CHUNK (uniqueRows rows)).flatten, u.latest.ip ≠ ip := by
      rw [hflat]
      intro u hu' heq
      rw [← heq, mem_uniqueRows hu'] at hu
      cases hu
    exact (after_pool_frame (foreign_of_chunks hbounds hothers) s.db).2.1
  | some u =>
    obtain ⟨hmem, rfl⟩ := uniqueOf_eq_some_iff.1 hu
    exact after_poolChunks (by rw [hflat]; exact uniqueRows_pairwise rows) hbounds s.db (by rw [hflat]; exact hmem)

end Gwsdb.Store
