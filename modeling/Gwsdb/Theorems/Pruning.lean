import Gwsdb.Lemmas.Prune

/-!
# Pruning is exact

`pruneCheckHistory`, run with no other writer, leaves each IP the checks it should keep (`kept`) and each pool row its new count
(`recounted`), unless the IP is dead, and it changes nothing but these and the versions (`prune_exact`).
-/

namespace Gwsdb.Store

namespace Database

/-- The IP is listed, and its pool row counts more checks than are retained. -/
def OverLimit (db : Database) (ips : List String) (ip : String) : Prop :=
  ip ∈ ips ∧ (db.pool.get? ip).any (fun row => decide (CHECK_HISTORY_RETENTION < row.historyCount)) = true

instance (db : Database) (ips : List String) (ip : String) : Decidable (db.OverLimit ips ip) :=
    inferInstanceAs (Decidable (_ ∧ _))

/-- The checks an IP keeps, newest first: the newest ones where it is over the limit, else all. -/
def kept (db : Database) (ips : List String) (ip : String) : List IpCheck :=
  if db.OverLimit ips ip then (db.checks.newestFirst ip).take CHECK_HISTORY_RETENTION else db.checks.newestFirst ip

/-- A pool row with the number of the checks its IP keeps, where the IP is over the limit. -/
def recounted (db : Database) (ips : List String) (ip : String) (row : PoolRow) : PoolRow :=
  if db.OverLimit ips ip then { row with historyCount := (db.kept ips ip).length } else row

/-- The IP is listed, its row then counts a full history, and no check it keeps is reachable. -/
def Dead (db : Database) (ips : List String) (ip : String) (row : PoolRow) : Prop :=
  ip ∈ ips ∧ CHECK_HISTORY_RETENTION ≤ (db.recounted ips ip row).historyCount ∧ ¬∃ r ∈ db.kept ips ip, r.ok = true

instance (db : Database) (ips : List String) (ip : String) (row : PoolRow) : Decidable (db.Dead ips ip row) :=
  inferInstanceAs (Decidable (_ ∧ _))

theorem overLimit_iff {db : Database} {ips : List String} {ip : String} {row : PoolRow} (hrow : db.pool.get? ip = some row) :
    db.OverLimit ips ip ↔ ip ∈ ips ∧ CHECK_HISTORY_RETENTION < row.historyCount := by
  unfold OverLimit
  rw [hrow, Option.any_some, decide_eq_true_eq]

theorem not_overLimit {db : Database} {ips : List String} {ip : String} (hrow : db.pool.get? ip = none) :
    ¬db.OverLimit ips ip := by
  rintro ⟨-, hany⟩
  rw [hrow] at hany
  cases hany

/-- The rows of a listed IP after a cut. -/
theorem cut_holding {db : Database} {ips : List String} {ip : String} (hip : ip ∈ ips) :
    (db.holding ip).cut = ⟨db.kept ips ip, (db.pool.get? ip).map (db.recounted ips ip)⟩ := by
  unfold Holding.cut holding
  cases hrow : db.pool.get? ip with
  | none => rw [kept, if_neg (not_overLimit hrow)]; rfl
  | some row =>
    rw [Option.map_some, recounted, kept]
    by_cases hover : CHECK_HISTORY_RETENTION < row.historyCount
    · have h : db.OverLimit ips ip := (overLimit_iff hrow).2 ⟨hip, hover⟩
      rw [if_pos h, if_pos h]
      exact if_pos hover
    · have h : ¬db.OverLimit ips ip := fun h => hover ((overLimit_iff hrow).1 h).2
      rw [if_neg h, if_neg h]
      exact if_neg hover

/-- The rows of an IP after a prune, listed or not. -/
theorem prune_holding (db : Database) (ips : List String) (ip : String) :
    (if ip ∈ ips then (db.holding ip).prune else db.holding ip) =
      ⟨db.kept ips ip, (db.pool.get? ip).bind fun row =>
          if db.Dead ips ip row then none else some (db.recounted ips ip row)⟩ := by
  by_cases hip : ip ∈ ips
  · rw [if_pos hip, Holding.prune, cut_holding hip, Holding.bury]
    cases db.pool.get? ip with
    | none => rfl
    | some row =>
      rw [Option.map_some, Option.bind_some]
      by_cases hdead : db.Dead ips ip row
      · rw [if_pos hdead]
        exact if_pos hdead.2
      · rw [if_neg hdead]
        exact if_neg fun h => hdead ⟨hip, h⟩
  · have hover : ¬db.OverLimit ips ip := fun h => hip h.1
    rw [if_neg hip, holding, kept, if_neg hover]
    cases db.pool.get? ip with
    | none => rfl
    | some row =>
      have hdead : ¬db.Dead ips ip row := fun h => hip h.1
      rw [Option.bind_some, if_neg hdead, recounted, if_neg hover]

end Database

/-- `pruneCheckHistory` run alone: it ends; every IP has the checks it keeps; a pool row has its new count, or is
gone exactly if its IP is dead; the last reset is the version if a row is gone, and both versions stand still if none
is; nothing else is changed. -/
theorem prune_exact (ips : List String) (s : Site) :
    ∃ s', (pruneCheckHistory ips).run serve s = (.ok (), s') ∧
      (∀ ip, s'.db.checks.newestFirst ip = s.db.kept ips ip) ∧
      (∀ ip, s'.db.pool.get? ip =
        (s.db.pool.get? ip).bind fun row => if s.db.Dead ips ip row then none else some (s.db.recounted ips ip row)) ∧
      ((∃ ip, s.db.pool.get? ip ≠ none ∧ s'.db.pool.get? ip = none) → s'.db.resetVersion = s'.db.version) ∧
      ((¬∃ ip, s.db.pool.get? ip ≠ none ∧ s'.db.pool.get? ip = none) →
        s'.db.version = s.db.version ∧ s'.db.resetVersion = s.db.resetVersion) ∧
      s'.db.ptr = s.db.ptr ∧ s'.edge = s.edge ∧ s'.totals = s.totals := by
  obtain ⟨s', hrun, hrows, hrest⟩ := run_pruneCheckHistory_rows ips s
  have hholding : ∀ ip, s'.db.holding ip = ⟨s.db.kept ips ip, _⟩ := fun ip => (hrows ip).trans (s.db.prune_holding ips ip)
  have hchecks : ∀ ip, s'.db.checks.newestFirst ip = s.db.kept ips ip := fun ip => congrArg Holding.checks (hholding ip)
  have hpool : ∀ ip, s'.db.pool.get? ip = _ := fun ip => congrArg Holding.row (hholding ip)
  exact ⟨s', hrun, hchecks, hpool, hrest.reset, hrest.still, hrest.ptr, hrest.edge, hrest.totals⟩

end Gwsdb.Store
