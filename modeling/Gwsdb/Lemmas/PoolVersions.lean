import Gwsdb.Lib.DeltaSync
import Gwsdb.Lemmas.Batches

/-!
# Versions of the pool

A batch of the handlers that changes what the pool endpoints show takes a new version, stamps the rows it changes with
it, and moves `reset_version` when it removes rows. So the databases before and after it are snapshots of one
revisioned store (`after_moved`).
-/

namespace Gwsdb.Store

open Keyed (Table)
open DeltaSync (Snapshot Valid Advance IsChanged)

namespace Database

/-- What the pool endpoints show of a database. -/
def snapshot (db : Database) : Snapshot String IPRow := ⟨db.joined, db.version, db.resetVersion⟩

/-- A joined row is that of a pool row, with its revision. -/
theorem joined_some {db : Database} {ip : String} {r : IPRow} (h : db.joined ip = some r) :
    ∃ row, db.pool.get? ip = some row ∧ r.ip = ip ∧ r.revision = row.revision := by
  obtain ⟨row, hrow, rfl⟩ := Option.map_eq_some_iff.1 h
  exact ⟨row, hrow, rfl, rfl⟩

/-- The rows shown stand under their IP, and none is stamped after the version. -/
theorem valid_snapshot (db : Database) : Valid IPRow.ip IPRow.revision db.snapshot where
  keyed := by
    intro ip r h
    obtain ⟨_, -, hip, -⟩ := joined_some h
    exact hip
  stamped := by
    intro ip r h
    obtain ⟨row, hrow, -, hrev⟩ := joined_some h
    rw [hrev]
    exact db.stamped ip row hrow

/-- The rows of `listKnownIPsChanged` up to the version are those stamped after the other one. -/
theorem isChanged_listKnownIPsChanged (db : Database) (since : Nat) :
    IsChanged IPRow.ip IPRow.revision db.snapshot since
      ((db.listKnownIPsChanged since db.version).map JoinedRow.toIPRow) := by
  intro r
  simp only [listKnownIPsChanged, List.map_map, List.mem_map, List.mem_insertionSort, List.mem_filter, decide_eq_true_eq,
    Function.comp_apply, Prod.exists]
  constructor
  · rintro ⟨ip, row, ⟨hm, hlt, -⟩, rfl⟩
    have hrow := (Table.mem_entries_iff db.pool ip row).1 hm
    refine ⟨?_, hlt⟩
    show (db.pool.get? ip).map _ = _
    rw [hrow]
    rfl
  · rintro ⟨hr, hlt⟩
    obtain ⟨row, hrow, heq⟩ := Option.map_eq_some_iff.1 hr
    have hrev : r.revision = row.revision := by rw [← heq]; rfl
    refine ⟨r.ip, row, ⟨(Table.mem_entries_iff db.pool r.ip row).2 hrow, by omega, db.stamped r.ip row hrow⟩, ?_⟩
    exact heq

/-! ## Changes under one version -/

/-- The second database has the version of the first, and every row it shows otherwise is stamped with that version. -/
structure Stamps (db db' : Database) : Prop where
  version : db'.version = db.version
  resetVersion : db'.resetVersion = db.resetVersion
  rows : ∀ ip, db'.joined ip = db.joined ip ∨ ∃ r, db'.joined ip = some r ∧ r.revision = db.version

theorem Stamps.refl (db : Database) : Stamps db db := ⟨rfl, rfl, fun _ => Or.inl rfl⟩

/-- Two stamped changes are one. -/
theorem Stamps.trans {a b c : Database} (hab : Stamps a b) (hbc : Stamps b c) : Stamps a c where
  version := hbc.version.trans hab.version
  resetVersion := hbc.resetVersion.trans hab.resetVersion
  rows := by
    intro ip
    rcases hbc.rows ip with h | ⟨r, hr, hrev⟩
    · rw [h]
      exact hab.rows ip
    · exact Or.inr ⟨r, hr, hrev.trans hab.version⟩

/-- A row of the pool written is a row stamped. -/
theorem writePool_stamps (db : Database) (ip : String) (f : Option PoolRow → Option PoolRow) :
    Stamps db (db.writePool ip f).2 where
  version := writePool_version db ip f
  resetVersion := writePool_resetVersion db ip f
  rows := by
    intro k
    unfold joined joinRow
    rw [get?_writePool, writePool_ptr]
    by_cases hk : k = ip
    · subst hk
      rw [if_pos rfl]
      cases f (db.pool.get? k) with
      | none => exact Or.inl rfl
      | some row => exact Or.inr ⟨_, rfl, rfl⟩
    · rw [if_neg hk]
      exact Or.inl rfl

/-- Pool writes stamp the rows they write. -/
theorem after_stamps {stmts : List Stmt} (h : ∀ stmt ∈ stmts, stmt.poolIp?.isSome) (db : Database) :
    Stamps db (db.after stmts) := by
  refine after_invariant (I := Stamps db) (P := fun stmt => stmt.poolIp?.isSome) ?_ h (Stamps.refl db)
  intro db' stmt hstmt hdb
  obtain ⟨ip, hip⟩ := Option.isSome_iff_exists.1 hstmt
  rw [exec_writes db' hip]
  exact hdb.trans (writePool_stamps db' ip _)

/-- A PTR result saved shows on the row of its IP, which is stamped. -/
theorem ptrPair_stamps (db : Database) (p : String × PtrRow × String) : Stamps db (db.after (ptrPair p)) := by
  obtain ⟨ip, ptr, checkedAt⟩ := p
  have hexec : db.after (ptrPair (ip, ptr, checkedAt)) =
      (({ db with ptr := db.ptr.put ip ptr } : Database).writePool ip fun old =>
      old.map fun row => { row with ptrCheckedAt := some checkedAt }).2 := rfl
  rw [hexec]
  refine ⟨writePool_version _ _ _, writePool_resetVersion _ _ _, ?_⟩
  intro k
  unfold joined joinRow
  rw [get?_writePool, writePool_ptr]
  by_cases hk : k = ip
  · subst hk
    rw [if_pos rfl]
    cases db.pool.get? k with
    | none => exact Or.inl rfl
    | some row => exact Or.inr ⟨_, rfl, rfl⟩
  · simp only [if_neg hk, Table.get?_put]
    exact Or.inl trivial

/-- The pairs of PTR results stamp what they touch. -/
theorem ptrPairs_stamps (pairs : List (String × PtrRow × String)) (db : Database) :
    Stamps db (db.after (pairs.flatMap ptrPair)) := by
  induction pairs generalizing db with
  | nil => exact Stamps.refl db
  | cons p pairs ih =>
    rw [List.flatMap_cons, after_append]
    exact (ptrPair_stamps db p).trans (ih _)

/-! ## One batch -/

/-- The second database is a later one of the same store; what removes rows takes a version. -/
structure Moved (db db' : Database) : Prop where
  advance : Advance IPRow.revision db.snapshot db'.snapshot
  reset_same : db.version = db'.version → db.resetVersion = db'.resetVersion

theorem Moved.refl (db : Database) : Moved db db := ⟨Advance.refl _, fun _ => rfl⟩

/-- Two moves are one. -/
theorem Moved.trans {a b c : Database} (hab : Moved a b) (hbc : Moved b c) : Moved a c where
  advance := hab.advance.trans hbc.advance
  reset_same := by
    intro h
    have h₁ : a.version ≤ b.version := hab.advance.version_le
    have h₂ : b.version ≤ c.version := hbc.advance.version_le
    exact (hab.reset_same (by omega)).trans (hbc.reset_same (by omega))

/-- A database that shows the same is no change. -/
theorem moved_of_same {db db' : Database} (hr : db'.joined = db.joined) (hv : db'.version = db.version)
    (hs : db'.resetVersion = db.resetVersion) : Moved db db' := by
  have hsnap : db'.snapshot = db.snapshot := by
    unfold snapshot
    rw [hr, hv, hs]
  refine ⟨?_, fun _ => hs.symm⟩
  rw [hsnap]
  exact Advance.refl _

/-- Rows stamped under a new version. -/
theorem moved_of_stamps {db db' : Database} (h : Stamps (db.exec .bumpPoolRevision).2 db') : Moved db db' := by
  have hv : db'.version = db.version + 1 := h.version
  have hs : db'.resetVersion = db.resetVersion := h.resetVersion
  have hrows : ∀ ip, db'.joined ip = db.joined ip ∨ ∃ r, db'.joined ip = some r ∧ r.revision = db.version + 1 := h.rows
  refine ⟨⟨?_, ?_, ?_, ?_, ?_⟩, fun _ => hs.symm⟩
  · show db.version ≤ db'.version
    omega
  · show db.resetVersion ≤ db'.resetVersion
    omega
  · intro ip r hr hrev
    rcases hrows ip with heq | ⟨r', hr', hrev'⟩
    · exact heq.symm.trans hr
    · have hrr : db'.joined ip = some r := hr
      rw [hr'] at hrr
      cases hrr
      have hle : r.revision ≤ db.version := hrev
      omega
  · intro ip hne hnone
    have hn : db'.joined ip = none := hnone
    rcases hrows ip with heq | ⟨r', hr', -⟩
    · exact absurd (heq.symm.trans hn) hne
    · rw [hr'] at hn
      cases hn
  · intro heq
    have : db.version = db'.version := heq
    omega

/-- Rows removed under a new version that is marked as a reset. -/
theorem moved_evict (db : Database) (ips : List String) : Moved db (db.after [.bumpPoolRevision, .markReset, .evict ips]) := by
  have hrows : ∀ ip, (db.after [.bumpPoolRevision, .markReset, .evict ips]).joined ip = db.joined ip ∨
      (db.after [.bumpPoolRevision, .markReset, .evict ips]).joined ip = none := by
    intro ip
    have hget : (db.after [.bumpPoolRevision, .markReset, .evict ips]).pool.get? ip =
        (db.pool.get? ip).filter fun _ => !decide (ip ∈ ips ∧ ¬db.Reachable ip) := Table.get?_filter _ _ _
    unfold joined
    rw [hget]
    cases hrow : db.pool.get? ip with
    | none => exact Or.inl rfl
    | some row =>
      rw [Option.filter_some]
      split
      · exact Or.inl rfl
      · exact Or.inr rfl
  refine ⟨⟨Nat.le_succ _, db.reset_le.trans (Nat.le_succ _), ?_, ?_, ?_⟩, ?_⟩
  · intro ip r hr _
    rcases hrows ip with heq | hnone
    · exact heq.symm.trans hr
    · have hrr : (db.after [.bumpPoolRevision, .markReset, .evict ips]).joined ip = some r := hr
      rw [hnone] at hrr
      cases hrr
  · intro ip _ _
    exact Nat.lt_succ_self _
  · intro heq
    exact absurd heq (Nat.ne_of_lt (Nat.lt_succ_self _))
  · intro heq
    exact absurd heq (Nat.ne_of_lt (Nat.lt_succ_self _))

/-- A count set shows nothing. -/
theorem joined_prune (db : Database) (ips : List String) (k : Nat) :
    (db.after [.deleteOldChecks ips k, .recount ips]).joined = db.joined := by
  funext ip
  unfold joined
  show ((Table.mapRows _ _).get? ip).map _ = _
  rw [Table.get?_mapRows, Option.map_map]
  show (db.pool.get? ip).map _ = _
  congr 1
  funext row
  simp only [Function.comp_apply]
  split <;> rfl

/-- What a batch of one of the forms does to what the endpoints show. -/
theorem after_moved {stmts : List Stmt} (h : WriteBatch stmts) (db : Database) : Moved db (db.after stmts) := by
  cases h with
  | inserts h =>
    obtain ⟨checks, heq⟩ := after_inserts h db
    rw [heq]
    exact moved_of_same rfl rfl rfl
  | pool h => exact moved_of_stamps (after_stamps h _)
  | ptr pairs => exact moved_of_stamps (ptrPairs_stamps pairs _)
  | prune ips => exact moved_of_same (joined_prune db ips _) rfl rfl
  | evict ips => exact moved_evict db ips

end Database

/-- An allowed call moves the database on. -/
theorem serve_moved {e : Call} (h : Allowed e) (s : Site) : Database.Moved s.db (serve e s).2.db := by
  cases e with
  | batch stmts =>
    have hdb : (serve (.batch stmts) s).2.db = s.db.after stmts := Database.batch_snd s.db stmts
    rw [hdb]
    exact Database.after_moved h s.db
  | _ => exact Database.Moved.refl _

end Gwsdb.Store
