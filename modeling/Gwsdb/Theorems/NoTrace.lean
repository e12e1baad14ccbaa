import Gwsdb.Lemmas.History
import Gwsdb.Lemmas.Submissions
import Gwsdb.Theorems.DeltaExact

/-!
# Rows need a success

Every way to a row of an IP goes through a successful check of it: a success makes rows, and a failure is recorded only of an IP
the pool has. So the tables know no IP of which no success was submitted, in every interleaving of the requests.
-/

namespace Gwsdb.Store

open Keyed (Table)

/-- A table has a row of the IP. -/
def Database.Knows (db : Database) (ip : String) : Prop := (∃ r ∈ db.checks.rows, r.ip = ip) ∨ db.pool.get? ip ≠ none

/-- The statement can make the first row of the IP. -/
def Stmt.Adds (ip : String) : Stmt → Prop
  | insertCheck row always _ => always = true ∧ row.ip = ip
  | insertRecheck row => row.ip = ip
  | poolUpsert p => p.ip = ip
  | poolInsert p => p.ip = ip
  | _ => False

namespace Database

theorem insertRow_knows {db : Database} {row : NewCheck} {ip : String} (h : (db.insertRow row).2.Knows ip) :
    db.Knows ip ∨ row.ip = ip := by
  rcases h with ⟨r, hr, hip⟩ | hpool
  · rcases IpChecks.mem_insert hr with hr | ⟨-, rfl⟩
    · exact Or.inl (Or.inl ⟨r, hr, hip⟩)
    · exact Or.inr hip
  · exact Or.inl (Or.inr hpool)

/-- A write that makes no row where there is none. -/
theorem writePool_knows {db : Database} {k ip : String} {f : Option PoolRow → Option PoolRow} (hf : f none = none)
    (h : (db.writePool k f).2.Knows ip) : db.Knows ip := by
  rcases h with ⟨r, hr, hip⟩ | hpool
  · rw [writePool_checks] at hr
    exact Or.inl ⟨r, hr, hip⟩
  · refine Or.inr fun hnone => hpool ?_
    rw [get?_writePool]
    split
    · rename_i hk
      rw [← hk, hnone, hf]
      rfl
    · exact hnone

/-- A write for another IP. -/
theorem writePool_knows_ne {db : Database} {k ip : String} {f : Option PoolRow → Option PoolRow} (hk : k ≠ ip)
    (h : (db.writePool k f).2.Knows ip) : db.Knows ip := by
  rcases h with ⟨r, hr, hip⟩ | hpool
  · rw [writePool_checks] at hr
    exact Or.inl ⟨r, hr, hip⟩
  · rw [get?_writePool, if_neg (Ne.symm hk)] at hpool
    exact Or.inr hpool

/-- A statement makes the first row of an IP only if it is one that can. -/
theorem exec_knows {db : Database} {stmt : Stmt} {ip : String} (h : (db.exec stmt).2.Knows ip) : db.Knows ip ∨ stmt.Adds ip := by
  cases stmt with
  | insertCheck row always cutoff =>
    simp only [exec] at h
    split at h
    · rename_i hgate
      rcases insertRow_knows h with h | hip
      · exact Or.inl h
      rcases Bool.or_eq_true_iff.1 hgate with halways | hpool
      · exact Or.inr ⟨halways, hip⟩
      · refine Or.inl (Or.inr fun hnone => ?_)
        rw [hip, hnone] at hpool
        cases hpool
    · exact Or.inl h
  | insertRecheck row => exact insertRow_knows h
  | poolUpsert p =>
    by_cases hip : p.ip = ip
    · exact Or.inr hip
    · exact Or.inl (writePool_knows_ne hip h)
  | poolInsert p =>
    by_cases hip : p.ip = ip
    · exact Or.inr hip
    · exact Or.inl (writePool_knows_ne hip h)
  | poolFailure k latestTS cutoff => exact Or.inl (writePool_knows rfl h)
  | poolCheck k ts ok rttMs => exact Or.inl (writePool_knows rfl h)
  | touchPTR k checkedAt => exact Or.inl (writePool_knows rfl h)
  | deleteOldChecks ips k =>
    rcases h with ⟨r, hr, hip⟩ | hpool
    · exact Or.inl (Or.inl ⟨r, (List.mem_filter.1 hr).1, hip⟩)
    · exact Or.inl (Or.inr hpool)
  | recount ips =>
    rcases h with hrow | hpool
    · exact Or.inl (Or.inl hrow)
    · refine Or.inl (Or.inr fun hnone => hpool ?_)
      show (Table.mapRows _ _).get? ip = none
      rw [Table.get?_mapRows, hnone]
      rfl
  | evict ips =>
    rcases h with hrow | hpool
    · exact Or.inl (Or.inl hrow)
    · refine Or.inl (Or.inr fun hnone => hpool ?_)
      show (Table.filter _ _).get? ip = none
      rw [Table.get?_filter, hnone]
      rfl
  | bumpPoolRevision => exact Or.inl h
  | markReset => exact Or.inl h
  | savePTR k row => exact Or.inl h

/-- A batch makes the first row of an IP only with a statement that can. -/
theorem after_knows {stmts : List Stmt} {db : Database} {ip : String} (h : (db.after stmts).Knows ip) :
    db.Knows ip ∨ ∃ stmt ∈ stmts, stmt.Adds ip := by
  induction stmts generalizing db with
  | nil => exact Or.inl h
  | cons stmt stmts ih =>
    rcases ih h with h | ⟨stmt', hm, hadds⟩
    · exact (exec_knows h).imp_right fun hadds => ⟨stmt, List.mem_cons_self, hadds⟩
    · exact Or.inr ⟨stmt', List.mem_cons_of_mem _ hm, hadds⟩

end Database

end Gwsdb.Store

namespace Gwsdb.Web

open Gwsdb.Store
open Interleave (Run)

/-- A request with a successful check of the IP has come in. -/
def Submitted (r : Run start serve) (n : Nat) (ip : String) : Prop := ∃ t ∈ (r.config n).threads, t.task.Submits ip

theorem Submitted.mono {r : Run start serve} {m n : Nat} (hmn : m ≤ n) {ip : String} (h : Submitted r m ip) :
    Submitted r n ip := by
  obtain ⟨t, ht, hsubmits⟩ := h
  obtain ⟨t', ht', htask⟩ := r.task_mono hmn ht
  exact ⟨t', ht', htask ▸ hsubmits⟩

/-- A call makes the first row of an IP only with a statement of a batch. -/
theorem serve_knows {e : Store.Call} {s : Store.Site} {ip : String} (h : (serve e s).2.db.Knows ip) :
    s.db.Knows ip ∨ ∃ stmts, e = .batch stmts ∧ ∃ stmt ∈ stmts, stmt.Adds ip := by
  cases e with
  | batch stmts =>
    have hdb : (serve (.batch stmts) s).2.db = s.db.after stmts := Database.batch_snd s.db stmts
    rw [hdb] at h
    exact (Database.after_knows h).imp_right fun hadds => ⟨stmts, rfl, hadds⟩
  | _ => exact Or.inl h

/-- A call of the run that can make the first row of an IP comes from a request with a success of it, or saves a failure of an IP
that was in the pool before. -/
theorem adds_submitted {r : Run start serve} {n : Nat} {stmts : List Stmt} (hl : r.label n = some (.batch stmts)) {stmt : Stmt}
    (hm : stmt ∈ stmts) {ip : String} (hadds : stmt.Adds ip) : Submitted r n ip ∨ ∃ m < n, (r.state m).db.Knows ip := by
  obtain ⟨t, ht, k, hk⟩ := r.thread_of_label hl
  obtain ⟨hafter, hrec⟩ := r.thread_spec n t ht
  rw [hk] at hafter
  have hguarded : stmt.Guarded t.task.Submits fun _ => True := (hafter.makes (guarded_start t.task)).2.1 stmt hm
  cases stmt with
  | insertCheck row always cutoff =>
    obtain ⟨halways, rfl⟩ := hadds
    exact Or.inl ⟨t, ht, hguarded halways⟩
  | poolUpsert p =>
    obtain rfl : p.ip = ip := hadds
    exact Or.inl ⟨t, ht, hguarded⟩
  | poolInsert p =>
    obtain rfl : p.ip = ip := hadds
    exact Or.inl ⟨t, ht, hguarded⟩
  | insertRecheck row =>
    obtain rfl : row.ip = ip := hadds
    cases hok : row.ok with
    | true => exact Or.inl ⟨t, ht, hguarded.1 hok⟩
    | false =>
      obtain ⟨s, hev⟩ := known_before hafter hm hok
      obtain ⟨m, -, hmn, -, -, hreply⟩ := hrec.of_mem hev
      have hknown : (r.state m).db.isKnownGood row.ip = true := hreply.symm
      refine Or.inr ⟨m, hmn, Or.inr fun hnone => ?_⟩
      rw [Database.isKnownGood, hnone] at hknown
      cases hknown
  | _ => exact hadds.elim

theorem knows_submitted (r : Run start serve) (hempty : (r.state 0).db = Database.empty) (ip : String) (n : Nat)
    (hknows : (r.state n).db.Knows ip) : Submitted r n ip := by
  induction n using Nat.strong_induction_on with
  | _ n ih =>
    cases n with
    | zero =>
      rw [hempty] at hknows
      rcases hknows with ⟨row, hrow, -⟩ | hpool
      · cases hrow
      · exact absurd rfl hpool
    | succ n =>
      cases hl : r.label n with
      | none =>
        rw [r.state_of_none hl] at hknows
        exact (ih n n.lt_succ_self hknows).mono n.le_succ
      | some e =>
        rw [r.state_of_some hl] at hknows
        rcases serve_knows hknows with hold | ⟨stmts, rfl, stmt, hm, hadds⟩
        · exact (ih n n.lt_succ_self hold).mono n.le_succ
        · rcases adds_submitted hl hm hadds with hsubmitted | ⟨m, hmn, hknown⟩
          · exact hsubmitted.mono n.le_succ
          · exact (ih m (by omega) hknown).mono (by omega)

/-- From empty tables, whatever the requests and their interleaving: an IP has a row in `ip_checks` or `ip_pool` only if a request
with a successful check of it has come in. -/
theorem no_trace_without_success (r : Run start serve) (hempty : (r.state 0).db = Database.empty) (n : Nat) (ip : String)
    (h : (∃ row ∈ (r.state n).db.checks.rows, row.ip = ip) ∨ (r.state n).db.pool.get? ip ≠ none) :
    ∃ t ∈ (r.config n).threads, t.task.Submits ip :=
  knows_submitted r hempty ip n h

/-- The pool row of a first check comes from a request with a success. -/
theorem no_trace_first : ∃ t ∈ (firstRun.config 17).threads, t.task.Submits "8.8.8.8" :=
  no_trace_without_success firstRun rfl 17 "8.8.8.8" (Or.inr (by decide +kernel))

end Gwsdb.Web
