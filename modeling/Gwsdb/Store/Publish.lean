import Gwsdb.Store.Database

/-!
# The IPs to publish

`topIPsForPublish` of `src/store.ts`.
-/

namespace Gwsdb.Store

/-- The families of addresses, 4 and 6. -/
inductive Family where
  | ipv4
  | ipv6
  deriving DecidableEq

/-- The conditions of `topIPsForPublish` on a row. -/
def PoolRow.publishable (row : PoolRow) (family : Family) : Bool :=
  row.isIPv6 = decide (family = .ipv6) && row.lastCheckOk = some true && row.lastRttMs.isSome

/-- `ORDER BY times_seen DESC, last_rtt_ms ASC`. -/
def PoolRow.PublishedBefore (a b : PoolRow) : Prop :=
  b.timesSeen < a.timesSeen ∨ b.timesSeen = a.timesSeen ∧ a.lastRttMs.getD 0 ≤ b.lastRttMs.getD 0

instance (a b : PoolRow) : Decidable (a.PublishedBefore b) := inferInstanceAs (Decidable (_ ∨ _))

/-- `LIMIT`, without effect when negative. -/
def sqlLimit {α : Type} (limit : Int) (rows : List α) : List α := if limit < 0 then rows else rows.take limit.toNat

/-- `topIPsForPublish`. -/
def Database.topIPsForPublish (db : Database) (family : Family) (limit : Int) : List String :=
  (sqlLimit limit ((db.pool.entries.filter fun e => e.2.publishable family).insertionSort fun a b =>
    a.2.PublishedBefore b.2)).map Prod.fst

theorem Database.mem_topIPsForPublish {db : Database} {family : Family} {limit : Int} {ip : String}
    (h : ip ∈ db.topIPsForPublish family limit) : ∃ row, db.pool.get? ip = some row ∧ row.publishable family = true := by
  obtain ⟨⟨ip, row⟩, he, rfl⟩ := List.mem_map.1 h
  have hsorted : (ip, row) ∈ (db.pool.entries.filter fun e => e.2.publishable family).insertionSort
      fun a b : String × PoolRow => a.2.PublishedBefore b.2 := by
    unfold sqlLimit at he
    split at he
    · exact he
    · exact List.mem_of_mem_take he
  rw [List.mem_insertionSort, List.mem_filter] at hsorted
  exact ⟨row, (Keyed.Table.mem_entries_iff _ _ _).1 hsorted.1, hsorted.2⟩

end Gwsdb.Store
