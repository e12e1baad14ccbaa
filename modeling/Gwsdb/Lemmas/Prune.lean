import Gwsdb.Lemmas.PoolUpdate
import Gwsdb.Store.Standing

/-!
# A prune, IP by IP

`pruneCheckHistory` run alone prunes the rows of each listed IP by themselves and leaves the rows of the others
(`run_pruneCheckHistory_rows`), whatever chunks the list is cut into. Besides, it only moves the versions, and only where it took
a row from the pool (`Shrinks`).
-/

namespace Gwsdb.Store

open Chunks (chunks)
open Interleave (Prog)
open Keyed (Table)

/-! ## The rows of an IP -/

/-- The checks of an IP, newest first, and its row of the pool. -/
structure Holding where
  checks : List IpCheck
  row : Option PoolRow

namespace Holding

/-- Where the count of the pool row exceeds the retention, the checks beyond it go and the count is set. -/
def cut (h : Holding) : Holding :=
  match h.row with
  | none => h
  | some row =>
    if CHECK_HISTORY_RETENTION < row.historyCount then
      ⟨h.checks.take CHECK_HISTORY_RETENTION, some { row with historyCount := (h.checks.take CHECK_HISTORY_RETENTION).length }⟩
    else h

/-- A pool row with a full history and no reachable check in it goes. -/
def bury (h : Holding) : Holding :=
  match h.row with
  | none => h
  | some row =>
    if CHECK_HISTORY_RETENTION ≤ row.historyCount ∧ ¬∃ r ∈ h.checks, r.ok = true then ⟨h.checks, none⟩ else h

/-- A prune. -/
def prune (h : Holding) : Holding := h.cut.bury

/-- The standing of the IP: its checks and a summary of its pool row. -/
def standing (h : Holding) : Standing := ⟨h.checks, h.row.map PoolRow.summary⟩

/-- Cutting the rows of an IP cuts its standing. -/
theorem standing_cut (h : Holding) : h.cut.standing = h.standing.cut := by
  obtain ⟨checks, row⟩ := h
  cases row with
  | none => rfl
  | some row =>
    by_cases hover : CHECK_HISTORY_RETENTION < row.historyCount
    · have hcut : cut ⟨checks, some row⟩ = _ := if_pos hover
      rw [hcut]
      exact (if_pos hover).symm
    · have hcut : cut ⟨checks, some row⟩ = _ := if_neg hover
      rw [hcut]
      exact (if_neg hover).symm

/-- Burying an IP buries its standing. -/
theorem standing_bury (h : Holding) : h.bury.standing = h.standing.bury := by
  obtain ⟨checks, row⟩ := h
  cases row with
  | none => rfl
  | some row =>
    by_cases hdead : CHECK_HISTORY_RETENTION ≤ row.historyCount ∧ ¬∃ r ∈ checks, r.ok = true
    · have hbury : bury ⟨checks, some row⟩ = _ := if_pos hdead
      rw [hbury]
      exact (if_pos hdead).symm
    · have hbury : bury ⟨checks, some row⟩ = _ := if_neg hdead
      rw [hbury]
      exact (if_neg hdead).symm

/-- The rows are pruned as their standing is. -/
theorem standing_prune (h : Holding) : h.prune.standing = h.standing.prune := by
  rw [prune, standing_bury, standing_cut]
  rfl

end Holding

namespace Database

/-- The rows of an IP in the database. -/
def holding (db : Database) (ip : String) : Holding := ⟨db.checks.newestFirst ip, db.pool.get? ip⟩

theorem standing_eq (db : Database) (ip : String) : db.standing ip = (db.holding ip).standing := rfl

/-- The query finds the listed IPs whose row counts more than is retained. -/
theorem mem_overLimit {db : Database} {ips : List String} {retention : Nat} {ip : String} :
    ip ∈ db.overLimit ips retention ↔ ip ∈ ips ∧ ∃ row, db.pool.get? ip = some row ∧ retention < row.historyCount := by
  unfold overLimit
  simp only [List.mem_map, List.mem_filter, decide_eq_true_eq, Prod.exists, exists_and_right,
    exists_eq_right, Table.mem_entries_iff]
  constructor
  · rintro ⟨row, hrow, hip, hover⟩
    exact ⟨hip, row, hrow, hover⟩
  · rintro ⟨hip, row, hrow, hover⟩
    exact ⟨row, hrow, hip, hover⟩

/-- The query finds the listed IPs with a full count and no reachable check. -/
theorem mem_dead {db : Database} {ips : List String} {retention : Nat} {ip : String} :
    ip ∈ db.dead ips retention ↔ ip ∈ ips ∧ (∃ row, db.pool.get? ip = some row ∧ retention ≤ row.historyCount) ∧
        ¬db.Reachable ip := by
  unfold dead
  simp only [List.mem_map, List.mem_filter, decide_eq_true_eq, Prod.exists, exists_and_right,
    exists_eq_right, Table.mem_entries_iff]
  constructor
  · rintro ⟨row, hrow, hip, hfull, hdead⟩
    exact ⟨hip, ⟨row, hrow, hfull⟩, hdead⟩
  · rintro ⟨hip, ⟨row, hrow, hfull⟩, hdead⟩
    exact ⟨row, hrow, hip, hfull, hdead⟩

/-- An IP is reachable where a check of its history is. -/
theorem reachable_iff {db : Database} {ip : String} : db.Reachable ip ↔ ∃ r ∈ db.checks.newestFirst ip, r.ok = true := by
  unfold Reachable
  simp only [IpChecks.mem_of, IpChecks.mem_newestFirst]

/-- The deletion of old checks and the recount, seen from one IP. -/
theorem holding_cut (db : Database) (ips : List String) (k : Nat) (ip : String) :
    (db.after [.deleteOldChecks ips k, .recount ips]).holding ip =
      if ip ∈ ips then
        ⟨(db.checks.newestFirst ip).take k,
          (db.pool.get? ip).map fun row => { row with historyCount := ((db.checks.newestFirst ip).take k).length }⟩
      else db.holding ip := by
  have hchecks : (db.after [.deleteOldChecks ips k, .recount ips]).checks = db.checks.retain ips k := rfl
  have hrow : (db.after [.deleteOldChecks ips k, .recount ips]).pool.get? ip = (db.pool.get? ip).map fun row =>
      if ip ∈ ips then { row with historyCount := ((db.checks.retain ips k).of ip).length } else row := Table.get?_mapRows _ _ _
  rw [holding, hchecks, hrow, ← IpChecks.length_newestFirst, IpChecks.newestFirst_retain]
  split
  · rfl
  · unfold holding
    cases db.pool.get? ip <;> rfl

/-- An eviction, seen from one IP. -/
theorem holding_evict (db : Database) (ips : List String) (ip : String) :
    (db.after [.bumpPoolRevision, .markReset, .evict ips]).holding ip =
      if ip ∈ ips ∧ ¬db.Reachable ip then ⟨db.checks.newestFirst ip, none⟩ else db.holding ip := by
  have hrow : (db.after [.bumpPoolRevision, .markReset, .evict ips]).pool.get? ip =
      (db.pool.get? ip).filter fun _ => !decide (ip ∈ ips ∧ ¬db.Reachable ip) := Table.get?_filter _ _ _
  have hchecks : (db.after [.bumpPoolRevision, .markReset, .evict ips]).checks = db.checks := rfl
  rw [holding, hchecks, hrow]
  split
  · rename_i hevict
    rw [decide_eq_true hevict]
    cases db.pool.get? ip <;> rfl
  · rename_i hkeep
    rw [decide_eq_false hkeep]
    unfold holding
    cases db.pool.get? ip <;> rfl

end Database

/-! ## What a prune leaves alone -/

/-- An IP left the pool between two states. -/
def Left (s s' : Site) (ip : String) : Prop := s.db.pool.get? ip ≠ none ∧ s'.db.pool.get? ip = none

/-- Besides checks and pool rows only the versions change, no IP comes into the pool, and an IP that leaves it marks a reset. -/
structure Shrinks (s s' : Site) : Prop where
  ptr : s'.db.ptr = s.db.ptr
  edge : s'.edge = s.edge
  totals : s'.totals = s.totals
  noneNew : ∀ ip, s.db.pool.get? ip = none → s'.db.pool.get? ip = none
  reset : (∃ ip, Left s s' ip) → s'.db.resetVersion = s'.db.version
  still : (¬∃ ip, Left s s' ip) → s'.db.version = s.db.version ∧ s'.db.resetVersion = s.db.resetVersion

namespace Shrinks

/-- Nothing is done. -/
theorem refl (s : Site) : Shrinks s s :=
  ⟨rfl, rfl, rfl, fun _ h => h, fun ⟨_, hin, hout⟩ => absurd hout hin, fun _ => ⟨rfl, rfl⟩⟩

/-- The versions stand still and no IP leaves. -/
theorem of_still {s s' : Site} (hptr : s'.db.ptr = s.db.ptr) (hedge : s'.edge = s.edge) (htotals : s'.totals = s.totals)
    (hpool : ∀ ip, s.db.pool.get? ip = none ↔ s'.db.pool.get? ip = none)
    (hversions : s'.db.version = s.db.version ∧ s'.db.resetVersion = s.db.resetVersion) : Shrinks s s' :=
  ⟨hptr, hedge, htotals, fun ip => (hpool ip).1, fun ⟨ip, hin, hout⟩ => absurd ((hpool ip).2 hout) hin, fun _ => hversions⟩

/-- What one call leaves, the next may shrink further. -/
theorem trans {s₁ s₂ s₃ : Site} (h₁ : Shrinks s₁ s₂) (h₂ : Shrinks s₂ s₃) : Shrinks s₁ s₃ where
  ptr := h₂.ptr.trans h₁.ptr
  edge := h₂.edge.trans h₁.edge
  totals := h₂.totals.trans h₁.totals
  noneNew ip h := h₂.noneNew ip (h₁.noneNew ip h)
  reset := by
    rintro ⟨ip, hin, hout⟩
    by_cases hlater : ∃ ip, Left s₂ s₃ ip
    · exact h₂.reset hlater
    · -- the IP left in the first part already, and the versions stood still since
      have hfirst : Left s₁ s₂ ip := ⟨hin, by_contra fun hmid => hlater ⟨ip, hmid, hout⟩⟩
      obtain ⟨hversion, hreset⟩ := h₂.still hlater
      rw [hversion, hreset]
      exact h₁.reset ⟨ip, hfirst⟩
  still := by
    intro hnone
    obtain ⟨hversion₁, hreset₁⟩ := h₁.still fun ⟨ip, hin, hout⟩ => hnone ⟨ip, hin, h₂.noneNew ip hout⟩
    obtain ⟨hversion₂, hreset₂⟩ := h₂.still fun ⟨ip, hin, hout⟩ => hnone ⟨ip, fun h => hin (h₁.noneNew ip h), hout⟩
    exact ⟨hversion₂.trans hversion₁, hreset₂.trans hreset₁⟩

end Shrinks

/-! ## The run -/

/-- The deletion of old checks cuts the rows of the listed IPs. -/
theorem run_deleteOld (ips : List String) (s : Site) :
    ∃ s', (deleteOld (s.db.overLimit ips CHECK_HISTORY_RETENTION)).run serve s = (.ok (), s') ∧
      (∀ ip, s'.db.holding ip = if ip ∈ ips then (s.db.holding ip).cut else s.db.holding ip) ∧ Shrinks s s' := by
  have hstays : ∀ ip, ip ∉ s.db.overLimit ips CHECK_HISTORY_RETENTION →
      s.db.holding ip = if ip ∈ ips then (s.db.holding ip).cut else s.db.holding ip := by
    intro ip hover
    split
    · rename_i hip
      unfold Holding.cut Database.holding
      cases hrow : s.db.pool.get? ip with
      | none => rfl
      | some row => exact (if_neg fun hlt => hover (Database.mem_overLimit.2 ⟨hip, row, hrow, hlt⟩)).symm
    · rfl
  unfold deleteOld
  split
  · refine ⟨_, rfl, fun ip => ?_, Shrinks.of_still rfl rfl rfl (fun ip => ?_) ⟨rfl, rfl⟩⟩
    · rw [serve_batch, Database.holding_cut]
      split
      · rename_i hover
        obtain ⟨hip, row, hrow, hlt⟩ := Database.mem_overLimit.1 hover
        rw [if_pos hip, Holding.cut, Database.holding, hrow]
        exact (if_pos hlt).symm
      · rename_i hover
        exact hstays ip hover
    · have hrow := congrArg Holding.row
        (s.db.holding_cut (s.db.overLimit ips CHECK_HISTORY_RETENTION) CHECK_HISTORY_RETENTION ip)
      rw [serve_batch]
      refine Iff.trans ?_ (Eq.to_iff (congrArg (· = none) hrow)).symm
      split
      · exact Option.map_eq_none_iff.symm
      · exact Iff.rfl
  · rename_i hnone
    refine ⟨s, rfl, fun ip => hstays ip fun hover => ?_, Shrinks.refl s⟩
    exact hnone (List.length_pos_of_mem hover)

/-- The eviction takes away the pool rows of the listed IPs without a reachable check. -/
theorem run_evictDead (ips : List String) (s : Site) :
    ∃ s', (evictDead (s.db.dead ips CHECK_HISTORY_RETENTION)).run serve s = (.ok (), s') ∧
      (∀ ip, s'.db.holding ip = if ip ∈ ips then (s.db.holding ip).bury else s.db.holding ip) ∧ Shrinks s s' := by
  have hstays : ∀ ip, ip ∉ s.db.dead ips CHECK_HISTORY_RETENTION →
      s.db.holding ip = if ip ∈ ips then (s.db.holding ip).bury else s.db.holding ip := by
    intro ip hdead
    split
    · rename_i hip
      unfold Holding.bury Database.holding
      cases hrow : s.db.pool.get? ip with
      | none => rfl
      | some row =>
        refine (if_neg ?_).symm
        rintro ⟨hfull, hnone⟩
        exact hdead (Database.mem_dead.2 ⟨hip, ⟨row, hrow, hfull⟩, fun h => hnone (Database.reachable_iff.1 h)⟩)
    · rfl
  unfold evictDead
  split
  · rename_i hsome
    have hevict := s.db.holding_evict (s.db.dead ips CHECK_HISTORY_RETENTION)
    refine ⟨_, rfl, fun ip => ?_, ⟨rfl, rfl, rfl, fun ip hnone => ?_, fun _ => rfl, fun hstill => ?_⟩⟩
    · rw [serve_batch, hevict]
      by_cases hdead : ip ∈ s.db.dead ips CHECK_HISTORY_RETENTION
      · obtain ⟨hip, ⟨row, hrow, hfull⟩, hnone⟩ := Database.mem_dead.1 hdead
        rw [if_pos ⟨hdead, hnone⟩, if_pos hip, Holding.bury, Database.holding, hrow]
        exact (if_pos ⟨hfull, fun h => hnone (Database.reachable_iff.2 h)⟩).symm
      · rw [if_neg fun h => hdead h.1]
        exact hstays ip hdead
    · rw [serve_batch]
      refine (congrArg Holding.row (hevict ip)).trans ?_
      split
      · rfl
      · exact hnone
    · -- the list is not empty, and its first IP leaves
      obtain ⟨ip, hdead⟩ := List.exists_mem_of_length_pos (Nat.pos_of_ne_zero hsome)
      obtain ⟨-, ⟨row, hrow, -⟩, hnone⟩ := Database.mem_dead.1 hdead
      refine absurd ⟨ip, by rw [hrow]; exact Option.some_ne_none _, ?_⟩ hstill
      rw [serve_batch]
      exact (congrArg Holding.row (hevict ip)).trans (by rw [if_pos ⟨hdead, hnone⟩])
  · rename_i hnone
    refine ⟨s, rfl, fun ip => hstays ip fun hdead => hnone ?_, Shrinks.refl s⟩
    exact (List.length_pos_of_mem hdead).ne'

/-- `pruneCheckHistory` run alone: it ends, each listed IP is pruned by itself, and the rest is left alone. -/
theorem run_pruneCheckHistory_rows (ips : List String) (s : Site) :
    ∃ s', (pruneCheckHistory ips).run serve s = (.ok (), s') ∧
      (∀ ip, s'.db.holding ip = if ip ∈ ips then (s.db.holding ip).prune else s.db.holding ip) ∧ Shrinks s s' := by
  have hloop : ∀ (l : List (List String)) (s : Site), l.flatten.Nodup →
      ∃ s', (l.forM fun chunk => do
          let overLimit ← perform (.overLimit chunk CHECK_HISTORY_RETENTION)
          deleteOld overLimit
          let dead ← perform (.dead chunk CHECK_HISTORY_RETENTION)
          evictDead dead : Program Unit).run serve s = (.ok (), s') ∧
        (∀ ip, s'.db.holding ip = if ip ∈ l.flatten then (s.db.holding ip).prune else s.db.holding ip) ∧ Shrinks s s' := by
    intro l
    induction l with
    | nil => exact fun s _ => ⟨s, rfl, fun ip => rfl, Shrinks.refl s⟩
    | cons chunk l ih =>
      intro s hnodup
      obtain ⟨-, hl, hdisjoint⟩ := List.nodup_append.1 (List.flatten_cons ▸ hnodup)
      obtain ⟨s₁, hrun₁, h₁, hrest₁⟩ := run_deleteOld chunk s
      obtain ⟨s₂, hrun₂, h₂, hrest₂⟩ := run_evictDead chunk s₁
      obtain ⟨s', hrun, h, hrest⟩ := ih s₂ hl
      refine ⟨s', ?_, fun ip => ?_, (hrest₁.trans hrest₂).trans hrest⟩
      · have hbody : (do
            let overLimit ← perform (.overLimit chunk CHECK_HISTORY_RETENTION)
            deleteOld overLimit
            let dead ← perform (.dead chunk CHECK_HISTORY_RETENTION)
            evictDead dead : Program Unit).run serve s = (.ok (), s₂) := (Prog.run_bind_of_ok hrun₁).trans hrun₂
        exact (Prog.run_bind_of_ok hbody).trans hrun
      · rw [h ip, h₂ ip, h₁ ip, List.flatten_cons]
        by_cases hin : ip ∈ chunk
        · rw [if_neg fun hl => hdisjoint ip hin ip hl rfl, if_pos hin, if_pos hin, if_pos (List.mem_append_left _ hin)]
          rfl
        · rw [if_neg hin, if_neg hin]
          simp only [List.mem_append, hin, false_or]
  have hflat : (chunks PRUNE_IP_CHUNK ips.eraseDups).flatten = ips.eraseDups := Chunks.chunks_flatten (by decide) _
  obtain ⟨s', hrun, h, hrest⟩ := hloop (chunks PRUNE_IP_CHUNK ips.eraseDups) s (by rw [hflat]; exact Table.nodup_eraseDups ips)
  refine ⟨s', hrun, fun ip => ?_, hrest⟩
  rw [h ip, hflat]
  simp only [List.mem_eraseDups]

/-- `pruneCheckHistory` run alone: the standing of each listed IP is pruned by itself. -/
theorem run_pruneCheckHistory (ips : List String) (s : Site) :
    ∃ s', (pruneCheckHistory ips).run serve s = (.ok (), s') ∧
      ∀ ip, s'.db.standing ip = if ip ∈ ips then (s.db.standing ip).prune else s.db.standing ip := by
  obtain ⟨s', hrun, h, -⟩ := run_pruneCheckHistory_rows ips s
  refine ⟨s', hrun, fun ip => ?_⟩
  rw [Database.standing_eq, h ip, Database.standing_eq, ← Holding.standing_prune]
  split
  · rfl
  · rfl

end Gwsdb.Store
