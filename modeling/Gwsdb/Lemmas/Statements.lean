import Gwsdb.Store.Database

/-!
# What one statement can do

One lemma for each table a statement touches: which rows of `ip_checks` it adds or removes, and which row of `ip_pool` it writes.
Later modules reason from these and do not unfold `exec`.
-/

namespace Gwsdb.Store

open Keyed (Table)

/-! ## Batches -/

namespace Database

/-- The database after a list of statements. -/
def after (db : Database) (stmts : List Stmt) : Database := stmts.foldl (fun db stmt => (db.exec stmt).2) db

@[simp] theorem after_nil (db : Database) : db.after [] = db := rfl

@[simp] theorem after_cons (db : Database) (stmt : Stmt) (stmts : List Stmt) :
    db.after (stmt :: stmts) = (db.exec stmt).2.after stmts := rfl

/-- Two lists of statements run one after the other. -/
theorem after_append (db : Database) (l₁ l₂ : List Stmt) : db.after (l₁ ++ l₂) = (db.after l₁).after l₂ :=
  List.foldl_append

/-- A batch leaves what its statements leave. -/
theorem batch_snd (db : Database) (stmts : List Stmt) : (db.batch stmts).2 = db.after stmts := by
  induction stmts generalizing db with
  | nil => rfl
  | cons stmt stmts ih => exact ih _

/-- What every statement of the list keeps, the list keeps. -/
theorem after_invariant {I : Database → Prop} {P : Stmt → Prop} (hI : ∀ db stmt, P stmt → I db → I (db.exec stmt).2)
    {stmts : List Stmt} (hP : ∀ stmt ∈ stmts, P stmt) {db : Database} (h : I db) : I (db.after stmts) := by
  induction stmts generalizing db with
  | nil => exact h
  | cons stmt stmts ih =>
    exact ih (fun s hs => hP s (List.mem_cons_of_mem _ hs)) (hI db stmt (hP stmt List.mem_cons_self) h)

/-! ## Writing a row of the pool -/

/-- A write counts one row where it writes one. -/
theorem writePool_fst (db : Database) (ip : String) (f : Option PoolRow → Option PoolRow) :
    (db.writePool ip f).1 = if (f (db.pool.get? ip)).isSome then 1 else 0 := by
  unfold writePool
  split <;> simp [*]

@[simp] theorem writePool_checks (db : Database) (ip : String) (f : Option PoolRow → Option PoolRow) :
    (db.writePool ip f).2.checks = db.checks := by
  unfold writePool
  split <;> rfl

@[simp] theorem writePool_ptr (db : Database) (ip : String) (f : Option PoolRow → Option PoolRow) :
    (db.writePool ip f).2.ptr = db.ptr := by
  unfold writePool
  split <;> rfl

@[simp] theorem writePool_version (db : Database) (ip : String) (f : Option PoolRow → Option PoolRow) :
    (db.writePool ip f).2.version = db.version := by
  unfold writePool
  split <;> rfl

@[simp] theorem writePool_resetVersion (db : Database) (ip : String) (f : Option PoolRow → Option PoolRow) :
    (db.writePool ip f).2.resetVersion = db.resetVersion := by
  unfold writePool
  split <;> rfl

/-- The row of an IP after a write: the row written, stamped, or the old one. -/
theorem get?_writePool (db : Database) (ip k : String) (f : Option PoolRow → Option PoolRow) :
    (db.writePool ip f).2.pool.get? k =
      if k = ip then ((f (db.pool.get? ip)).map fun row => { row with revision := db.version }).or (db.pool.get? ip)
      else db.pool.get? k := by
  unfold writePool
  cases hf : f (db.pool.get? ip) with
  | none =>
    by_cases hk : k = ip
    · subst hk
      rw [if_pos rfl]
      rfl
    · rw [if_neg hk]
  | some row =>
    simp only [Table.get?_put, Option.map_some, Option.some_or]

end Database

/-! ## Kinds of statements -/

namespace Stmt

/-- The row a statement inserts into `ip_checks`, if it inserts. -/
def inserted? : Stmt → Option NewCheck
  | insertCheck row _ _ => some row
  | insertRecheck row => some row
  | _ => none

/-- The IP whose pool row a statement writes, if it writes one. -/
def poolIp? : Stmt → Option String
  | poolUpsert p => some p.ip
  | poolFailure ip _ _ => some ip
  | poolCheck ip _ _ _ => some ip
  | poolInsert p => some p.ip
  | touchPTR ip _ => some ip
  | _ => none

end Stmt

namespace Database

/-- A statement that writes a pool row, as what it makes of the row there. -/
def rewrite (db : Database) : Stmt → Option PoolRow → Option PoolRow
  | .poolUpsert p => fun old => some (p.upsert (db.historyCount p.ip) (db.historyCountIncr p.ip) old)
  | .poolFailure ip latestTS cutoff => fun old => (old.filter (·.failureGate cutoff)).map fun row =>
    { row with lastCheckedAt := some latestTS, lastCheckOk := some false, historyCount := db.historyCountIncr ip row }
  | .poolCheck ip ts ok rttMs => fun old => old.map fun row =>
    { row with
      lastCheckedAt := some ts, lastCheckOk := some ok
      lastRttMs := if ok then some rttMs else row.lastRttMs
      lastSeen := if ok then some ts else row.lastSeen
      timesSeen := if ok then row.timesSeen + 1 else row.timesSeen
      historyCount := db.historyCountIncr ip row }
  | .poolInsert p => fun old => some (p.upsert (db.historyCount p.ip) (fun _ => db.historyCount p.ip) old)
  | .touchPTR _ checkedAt => fun old => old.map fun row => { row with ptrCheckedAt := some checkedAt }
  | _ => fun _ => none

/-- A statement that writes a pool row is a write of its `rewrite`. -/
theorem exec_writes (db : Database) {stmt : Stmt} {ip : String} (h : stmt.poolIp? = some ip) :
    db.exec stmt = db.writePool ip (db.rewrite stmt) := by
  cases stmt <;> cases h <;> rfl

/-- `rewrite` reads the history of the statement's IP only. -/
theorem rewrite_congr {db db' : Database} {stmt : Stmt} {ip : String} (h : stmt.poolIp? = some ip)
    (hof : db.checks.of ip = db'.checks.of ip) : db.rewrite stmt = db'.rewrite stmt := by
  have hcount : db.historyCount ip = db'.historyCount ip := by
    unfold historyCount
    rw [hof]
  have hincr : db.historyCountIncr ip = db'.historyCountIncr ip := by
    funext row
    unfold historyCountIncr
    rw [hof]
  cases stmt <;> cases h <;> simp only [rewrite, hcount, hincr]

/-- Only inserts and the delete of old checks touch `ip_checks`. -/
theorem exec_checks_of_neither (db : Database) {stmt : Stmt} (hi : stmt.inserted? = none)
    (hd : ∀ ips k, stmt ≠ .deleteOldChecks ips k) : (db.exec stmt).2.checks = db.checks := by
  cases stmt with
  | deleteOldChecks ips k => exact absurd rfl (hd ips k)
  | insertCheck row always cutoff => cases hi
  | insertRecheck row => cases hi
  | poolUpsert p => exact writePool_checks _ _ _
  | poolFailure ip latestTS cutoff => exact writePool_checks _ _ _
  | poolCheck ip ts ok rttMs => exact writePool_checks _ _ _
  | poolInsert p => exact writePool_checks _ _ _
  | touchPTR ip checkedAt => exact writePool_checks _ _ _
  | bumpPoolRevision => rfl
  | markReset => rfl
  | recount ips => rfl
  | evict ips => rfl
  | savePTR ip row => rfl

/-- An insert adds its row or nothing, and touches no other table. -/
theorem exec_insert (db : Database) {stmt : Stmt} {row : NewCheck} (h : stmt.inserted? = some row) :
    (db.exec stmt).2 = db ∨ (db.exec stmt).2 = { db with checks := db.checks.insert row } := by
  cases stmt <;> cases h
  · simp only [exec]
    split
    · exact Or.inr rfl
    · exact Or.inl rfl
  · exact Or.inr rfl

/-- Inserts touch `ip_checks` only. -/
theorem after_inserts {stmts : List Stmt} (h : ∀ stmt ∈ stmts, stmt.inserted?.isSome) (db : Database) :
    ∃ checks, db.after stmts = { db with checks := checks } := by
  refine after_invariant (I := fun db' => ∃ checks, db' = { db with checks := checks }) (P := fun stmt => stmt.inserted?.isSome)
    ?_ h ⟨db.checks, rfl⟩
  rintro _ stmt hstmt ⟨checks, rfl⟩
  obtain ⟨row, hrow⟩ := Option.isSome_iff_exists.1 hstmt
  rcases exec_insert { db with checks := checks } hrow with heq | heq
  · exact ⟨checks, heq⟩
  · exact ⟨_, heq⟩

end Database

end Gwsdb.Store
