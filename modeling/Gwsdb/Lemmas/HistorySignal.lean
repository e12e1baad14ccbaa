import Gwsdb.Lib.Signal
import Gwsdb.Theorems.HistoryVersion
import Gwsdb.Web.History

/-!
# The version of a history along a run

What the calls of a run do to the checks of an IP, for a reader that compares versions: the version signals every change of the
retained history, it only goes down when a prune takes the last check of the IP, and it is zero only for an IP without checks.
-/

namespace Gwsdb.Store

/-- A prune of the listed IPs keeps the row with the greatest id of each of them. -/
def Database.KeepsLastIds (db : Database) (ips : List String) (retention : Nat) : Prop :=
  ∀ ip ∈ ips, ∀ r, (db.checks.of ip).getLast? = some r → db.checks.rowNumber r ≤ retention

/-- A prune that keeps the last id of each history keeps the last id of the table. -/
theorem Database.KeepsLastIds.keepsLastId {db : Database} {ips : List String} {k : Nat} (h : db.KeepsLastIds ips k) :
    db.KeepsLastId ips k := by
  intro r hr hip
  refine h r.ip hip r ?_
  obtain ⟨pre, hpre⟩ := List.getLast?_eq_some_iff.1 hr
  rw [IpChecks.of, hpre, List.filter_append, List.filter_cons_of_pos (by simp), List.filter_nil, List.getLast?_concat]

/-- Ids begin at one. -/
def IpChecks.PositiveIds (t : IpChecks) : Prop := ∀ r ∈ t.rows, 0 < r.id

/-- A new row has a positive id. -/
theorem IpChecks.PositiveIds.insert {t : IpChecks} (h : t.PositiveIds) (row : NewCheck) : (t.insert row).PositiveIds := by
  intro r hr
  rcases IpChecks.mem_insert hr with hold | ⟨-, rfl⟩
  · exact h r hold
  · exact Nat.succ_pos _

/-- Rows that are kept had one. -/
theorem IpChecks.PositiveIds.retain {t : IpChecks} (h : t.PositiveIds) (ips : List String) (k : Nat) :
    (t.retain ips k).PositiveIds := fun r hr => h r (List.mem_filter.1 hr).1

/-- The version of the rows of an IP is at most that of other rows, if each of its rows is followed by one of those. -/
theorem Database.ipHistoryVersion_le_of {db db' : Database} {ip : String}
    (h : ∀ r ∈ db.checks.of ip, ∃ r' ∈ db'.checks.of ip, r.id ≤ r'.id) : db.ipHistoryVersion ip ≤ db'.ipHistoryVersion ip := by
  refine Database.ipHistoryVersion_le_iff.2 fun r hr => ?_
  obtain ⟨r', hr', hle⟩ := h r hr
  exact hle.trans (Database.le_ipHistoryVersion hr')

/-- Each of the rows of an IP has an id up to that of the last one. -/
theorem IpChecks.le_last (t : IpChecks) {ip : String} {r last : IpCheck} (hr : r ∈ t.of ip)
    (hlast : (t.of ip).getLast? = some last) :
    r.id ≤ last.id := by
  obtain ⟨pre, hpre⟩ := List.getLast?_eq_some_iff.1 hlast
  have hasc : (t.of ip).Pairwise fun a b => a.id < b.id := t.ascending.sublist List.filter_sublist
  rw [hpre] at hr hasc
  rcases List.mem_append.1 hr with hr | hr
  · exact ((List.pairwise_append.1 hasc).2.2 r hr last (List.mem_singleton_self _)).le
  · rw [List.mem_singleton.1 hr]

end Gwsdb.Store

namespace Gwsdb.Web

open Gwsdb.Store
open Interleave (Run)

/-- The version of the history of an IP at a moment of a run. -/
def versionAt (r : Run start serve) (ip : String) (n : Nat) : Nat := (r.state n).db.ipHistoryVersion ip

/-- The history of an IP at a moment of a run, as the endpoint shows it. -/
def historyAt (r : Run start serve) (ip : String) (n : Nat) : Except String (List HistoryCheck) := historyChecks (r.state n).db ip

/-- A row in the window has an id up to the version. -/
theorem id_le_versionAt {r : Run start serve} {ip : String} {n : Nat} {row : IpCheck}
    (h : row ∈ (r.state n).db.checks.window ip) :
    row.id ≤ versionAt r ip n :=
  Database.le_ipHistoryVersion (IpChecks.mem_of.2 (IpChecks.mem_newestFirst.1 (List.mem_of_mem_take h)))

/-- Such a run has a sound signal in the version: a window that changed shows a row with a later id ever after, or a version after
it. -/
theorem history_signal (r : Run start serve)
    (hlast : ∀ n stmts ips k, r.label n = some (.batch stmts) → Stmt.deleteOldChecks ips k ∈ stmts →
      (r.state n).db.KeepsLastId ips k)
    (ip : String) : Signal.Sound (versionAt r ip) (historyAt r ip) := by
  intro m k n hmk hkn hv
  have hwindow : (r.state k).db.checks.window ip = (r.state m).db.checks.window ip := by
    rcases (follows_later r hlast ip hmk).window with ⟨row, hrow, hlt⟩ | hsame
    · have hle := id_le_versionAt hrow
      change versionAt r ip m < row.id at hlt
      rcases (follows_later r hlast ip hkn).window with ⟨row', hrow', hlt'⟩ | hsame'
      · have hle' := id_le_versionAt hrow'
        change versionAt r ip k < row'.id at hlt'
        omega
      · rw [← hsame'] at hrow
        have hle' := id_le_versionAt hrow
        omega
    · exact hsame
  unfold historyAt historyChecks Database.ipHistory
  rw [List.drop_zero, List.drop_zero]
  exact congrArg (fun w => List.mapM toHistoryCheck (List.map IpCheck.toHistoryRow w)) hwindow

/-- Where prunes keep the last check of each IP, the version never goes down. Across each step every row of the IP is
still there or has one with a greater id beside it. -/
theorem versionAt_mono (r : Run start serve)
    (hlast : ∀ n stmts ips k, r.label n = some (.batch stmts) → Stmt.deleteOldChecks ips k ∈ stmts →
      (r.state n).db.KeepsLastIds ips k)
    (ip : String) : Monotone (versionAt r ip) := by
  intro m n hmn
  have hstep : ∀ {s : Store.Site} {e : Store.Call}, Allowed e →
      (∀ stmts ips k, e = .batch stmts → Stmt.deleteOldChecks ips k ∈ stmts → s.db.KeepsLastIds ips k) →
      s.db.ipHistoryVersion ip ≤ (serve e s).2.db.ipHistoryVersion ip := by
    intro s e he hkeeps
    refine Database.ipHistoryVersion_le_of ?_
    refine serve_checks (I := fun t => ∀ r ∈ s.db.checks.of ip, ∃ r' ∈ t.of ip, r.id ≤ r'.id) he ?_ ?_ fun r hr =>
      ⟨r, hr, le_refl _⟩
    · intro t row ht r hr
      obtain ⟨r', hr', hle⟩ := ht r hr
      refine ⟨r', ?_, hle⟩
      by_cases hkey : t.HasKey row
      · rwa [IpChecks.insert_of_hasKey hkey]
      · rw [IpChecks.insert_of_not_hasKey hkey, IpChecks.append_of]
        split
        · exact List.mem_append_left _ hr'
        · exact hr'
    · intro stmts ips heq hm _ r hr
      obtain ⟨last, hgetLast⟩ : ∃ last, (s.db.checks.of ip).getLast? = some last :=
        ⟨_, List.getLast?_eq_some_getLast (List.ne_nil_of_mem hr)⟩
      refine ⟨last, ?_, s.db.checks.le_last hr hgetLast⟩
      rw [IpChecks.retain, IpChecks.filter_of]
      have hmem := List.mem_of_getLast? hgetLast
      refine List.mem_filter.2 ⟨hmem, decide_eq_true fun hin => ?_⟩
      rw [(IpChecks.mem_of.1 hmem).2] at hin
      exact hkeeps stmts ips _ heq hm ip hin last hgetLast
  refine r.related (Q := fun s s' => s.db.ipHistoryVersion ip ≤ s'.db.ipHistoryVersion ip) (fun _ => le_refl _)
    (fun _ _ _ => le_trans) ?_ hmn
  intro k e hl
  refine hstep (r.makes_label makes_start hl) ?_
  rintro stmts ips k' rfl hm
  exact hlast k stmts ips k' hl hm

/-- Ids stay positive. -/
theorem positiveIds_later (r : Run start serve) (h : (r.state 0).db.checks.PositiveIds) (n : Nat) :
    (r.state n).db.checks.PositiveIds := by
  refine r.invariant_from (I := fun s => s.db.checks.PositiveIds) h ?_ n (Nat.zero_le n)
  intro k e _ hl hk
  exact serve_checks (r.makes_label makes_start hl) (fun t row ht => ht.insert row) (fun _ ips _ _ ht => ht.retain ips _) hk

/-- The checks of an IP are none exactly when its version is zero. -/
theorem historyChecks_eq_nil_iff {db : Database} (hids : db.checks.PositiveIds) (ip : String) :
    historyChecks db ip = .ok [] ↔ db.ipHistoryVersion ip = 0 := by
  have hshown : historyChecks db ip = .ok [] ↔ db.checks.of ip = [] := by
    unfold historyChecks
    rw [Interleave.mapM_ok_iff, List.forall₂_nil_right_iff, ← List.length_eq_zero_iff,
      ← List.length_eq_zero_iff, Database.ipHistory,
      List.length_map, List.length_take, List.drop_zero, IpChecks.length_newestFirst]
    unfold CHECK_HISTORY_RETENTION
    omega
  rw [hshown]
  constructor
  · intro hnil
    unfold Database.ipHistoryVersion
    rw [hnil]
    rfl
  · intro hv
    refine List.eq_nil_iff_forall_not_mem.2 fun r hr => ?_
    have hle := Database.le_ipHistoryVersion hr
    have hpos := hids r (IpChecks.mem_of.1 hr).1
    omega

end Gwsdb.Web
