import Gwsdb.Lemmas.ChecksInOrder
import Gwsdb.Lemmas.Visits

/-!
# The count of a history

`history_count` is raised by the number of checks dated after the `last_checked_at` that a report replaces. A check dated
before it that comes in is not counted, so the count can fall behind (`late_check_not_counted`), and pruning trusts the
count. `history_capped_iff` says when it does not fall behind: the checks that a report does not count are within the count
already, or a prune counts again.
-/

namespace Gwsdb.Store

/-! ## One visit -/

/-- The report of a visit counts a check: it is dated after the latest check that the pool row has. -/
def Visit.counts (v : Visit) (row : PoolSummary) (x : Bool × String) : Bool :=
  v.report.isSome && row.lastCheckedAt.any fun t => decide (t < x.2)

namespace Standing

/-- The count of a pool row is at least the number of checks. -/
def Covered (st : Standing) : Prop := ∀ row, st.row = some row → st.checks.length ≤ row.historyCount

/-- The number of checks that the report of a visit counts. -/
def counted (st : Standing) (v : Visit) (row : PoolSummary) : Nat := (st.known v).countP (v.counts row)

/-- The number of checks that it does not count. -/
def uncounted (st : Standing) (v : Visit) (row : PoolSummary) : Nat := (st.known v).countP fun x => !v.counts row x

/-- The checks that a report does not count are within the count of the pool row, or the prune after it counts again, or it
removes the pool row for a full history with no reachable check. -/
def CountKept (st : Standing) (v : Visit) : Prop :=
  ∀ row, st.row = some row →
    st.uncounted v row ≤ row.historyCount ∨
      v.pruned = true ∧ (CHECK_HISTORY_RETENTION < row.historyCount + st.counted v row ∨
        CHECK_HISTORY_RETENTION = row.historyCount + st.counted v row ∧ ∀ x ∈ st.known v, x.1 = false)

/-- The report of a visit, after its checks came in. -/
theorem report_row {st : Standing} {v : Visit} {rs : List IpCheck} (hrs : rs.map IpCheck.outcome = v.checks) {row : PoolSummary}
    (hrow : st.row = some row) :
    ∃ row', v.report.elim (rs.foldl insert st) (rs.foldl insert st).report = ⟨(rs.foldl insert st).checks, some row'⟩ ∧
      row'.historyCount = row.historyCount + st.counted v row := by
  have hperm : (rs.foldl insert st).outcomes.Perm (st.known v) := known_perm hrs
  have hrow' := (foldl_insert_row st rs).trans hrow
  generalize rs.foldl insert st = st' at hperm hrow'
  obtain ⟨checks, _⟩ := st'
  cases hrow'
  cases hreport : v.report with
  | none =>
    refine ⟨row, rfl, ?_⟩
    rw [counted, List.countP_eq_zero.2 fun x _ => by simp [Visit.counts, hreport]]
    rfl
  | some rep =>
    refine ⟨_, rfl, ?_⟩
    have hcount : st.counted v row = (mk checks (some row)).countAfter row.lastCheckedAt := by
      rw [counted, ← hperm.countP_eq, outcomes, List.countP_map, countAfter]
      refine List.countP_congr fun r _ => ?_
      simp [Visit.counts, hreport, IpCheck.outcome]
    rw [hcount]

/-- The report counts a check or does not. -/
theorem length_foldl_insert {st : Standing} {v : Visit} {rs : List IpCheck}
    (hrs : rs.map IpCheck.outcome = v.checks) (row : PoolSummary) :
    (rs.foldl insert st).checks.length = st.counted v row + st.uncounted v row := by
  have hlength : (rs.foldl insert st).outcomes.length = (st.known v).length := (known_perm hrs).length_eq
  rw [outcomes, List.length_map] at hlength
  rw [hlength, List.length_eq_countP_add_countP (v.counts row)]
  simp only [Bool.not_eq_true, Bool.decide_eq_false]
  rfl

/-- A row covers the checks when its count is no less than their number. -/
theorem covered_some {checks : List IpCheck} {row : PoolSummary} :
    (mk checks (some row)).Covered ↔ checks.length ≤ row.historyCount :=
  ⟨fun h => h row rfl, fun h _ heq => Option.some.inj heq ▸ h⟩

/-- Without a row nothing is to be covered. -/
theorem covered_none (checks : List IpCheck) : (mk checks none).Covered := fun _ h => by cases h

/-- When the count covers the checks after a prune. -/
theorem prune_covered_iff (checks : List IpCheck) (row : PoolSummary) :
    (mk checks (some row)).prune.Covered ↔
      checks.length ≤ row.historyCount ∨ CHECK_HISTORY_RETENTION < row.historyCount ∨
        CHECK_HISTORY_RETENTION = row.historyCount ∧ ∀ r ∈ checks, r.ok = false := by
  simp only [prune, cut]
  split
  · -- over the limit: the checks are cut and counted
    rename_i hover
    refine iff_of_true ?_ (Or.inr (Or.inl hover))
    simp only [bury]
    split
    · exact covered_none _
    · exact covered_some.2 (le_refl _)
  · rename_i hunder
    simp only [bury]
    split
    · -- a full history without a reachable check: the pool row goes
      rename_i hdead
      refine iff_of_true (covered_none _) (Or.inr (Or.inr ⟨by omega, fun r hr => ?_⟩))
      exact Bool.eq_false_iff.2 fun hok => hdead.2 ⟨r, hr, hok⟩
    · rename_i halive
      rw [covered_some]
      constructor
      · exact Or.inl
      · rintro (hle | hover | ⟨hfull, hfailed⟩)
        · exact hle
        · exact absurd hover hunder
        · refine absurd ⟨hfull.le, ?_⟩ halive
          rintro ⟨r, hr, hok⟩
          rw [hfailed r hr] at hok
          cases hok

/-- Burying the row leaves the checks. -/
theorem bury_checks (st : Standing) : st.bury.checks = st.checks := by
  unfold bury
  split
  · rfl
  · split <;> rfl

/-- Pruning keeps the row covering. -/
theorem Covered.prune {st : Standing} (h : st.Covered) : st.prune.Covered := by
  obtain ⟨checks, _ | row⟩ := st
  · exact covered_none checks
  · exact (prune_covered_iff checks row).2 (Or.inl (covered_some.1 h))

/-- A prune of covered checks leaves at most the retention where it leaves a pool row. -/
theorem Covered.length_prune {st : Standing} (h : st.Covered) (hrow : st.prune.row ≠ none) :
    st.prune.checks.length ≤ CHECK_HISTORY_RETENTION := by
  obtain ⟨checks, _ | row⟩ := st
  · exact absurd rfl hrow
  simp only [Standing.prune, bury_checks, cut]
  split
  · exact List.length_take_le _ _
  · rename_i hunder
    exact (covered_some.1 h).trans (Nat.le_of_not_lt hunder)

/-- A pool row that a report makes counts the checks. -/
theorem report_covered {checks : List IpCheck} (rep : Report) : ((mk checks none).report rep).Covered := by
  intro row hrow
  obtain ⟨at', -, rfl⟩ := Option.map_eq_some_iff.1 hrow
  exact le_refl _

/-- A visit keeps the checks covered exactly where it keeps the count. -/
theorem visited_covered_iff {st : Standing} {v : Visit} {rs : List IpCheck} (hrs : rs.map IpCheck.outcome = v.checks) :
    (st.visited v rs).Covered ↔ st.CountKept v := by
  cases hrow : st.row with
  | none =>
    refine iff_of_true ?_ fun row h => ?_
    · have hnone := (foldl_insert_row st rs).trans hrow
      have hreported : (v.report.elim (rs.foldl insert st) (rs.foldl insert st).report).Covered := by
        generalize rs.foldl insert st = st' at hnone
        obtain ⟨checks, _⟩ := st'
        cases hnone
        cases v.report with
        | none => exact covered_none checks
        | some rep => exact report_covered rep
      unfold visited
      dsimp only
      split
      · exact hreported.prune
      · exact hreported
    · rw [hrow] at h
      cases h
  | some row =>
    obtain ⟨row', hreported, hcount⟩ := report_row hrs hrow
    have hlength : (rs.foldl insert st).checks.length = st.counted v row + st.uncounted v row := length_foldl_insert hrs row
    have hfailed : (∀ r ∈ (rs.foldl insert st).checks, r.ok = false) ↔ ∀ x ∈ st.known v, x.1 = false := by
      constructor
      · intro h x hx
        obtain ⟨r, hr, rfl⟩ := List.mem_map.1 ((known_perm hrs).mem_iff.2 hx)
        exact h r hr
      · intro h r hr
        exact h r.outcome ((known_perm hrs).mem_iff.1 (List.mem_map_of_mem hr))
    have hkept : st.CountKept v ↔ st.uncounted v row ≤ row.historyCount ∨
        v.pruned = true ∧ (CHECK_HISTORY_RETENTION < row'.historyCount ∨
          CHECK_HISTORY_RETENTION = row'.historyCount ∧ ∀ r ∈ (rs.foldl insert st).checks, r.ok = false) := by
      rw [hfailed, hcount]
      refine ⟨fun h => h row hrow, fun h row₁ hrow₁ => ?_⟩
      rw [hrow] at hrow₁
      cases hrow₁
      exact h
    have hle : (rs.foldl insert st).checks.length ≤ row'.historyCount ↔ st.uncounted v row ≤ row.historyCount := by omega
    unfold visited
    dsimp only
    rw [hreported, hkept]
    cases hpruned : v.pruned with
    | true =>
      rw [if_pos rfl, prune_covered_iff, hle]
      simp only [true_and]
    | false =>
      rw [if_neg Bool.false_ne_true, covered_some, hle]
      simp only [Bool.false_eq_true, false_and, or_false]

end Standing

end Gwsdb.Store

namespace Gwsdb.Web

open Gwsdb.Store
open Transition (run Meets)

/-! ## Runs -/

/-- The count of each pool row is at least the number of checks of its IP, and a prune leaves no listed pool IP with
more checks than the retention. -/
structure Capped (s : Store.Site) : Prop where
  counted : ∀ ip row, s.db.pool.get? ip = some row → (s.db.checks.of ip).length ≤ row.historyCount
  pruned : ∀ ips, ∃ s', (pruneCheckHistory ips).run serve s = (.ok (), s') ∧
    ∀ ip ∈ ips, s'.db.pool.get? ip ≠ none → (s'.db.checks.of ip).length ≤ CHECK_HISTORY_RETENTION

/-- The condition, for each IP. -/
def KeepsCount (s : Store.Site) (t : Task) : Prop := ∀ ip, (s.db.standing ip).CountKept (t.visit s.db ip)

/-- A standing is covered when its IP's row counts no less than its checks. -/
theorem covered_iff {db : Database} {ip : String} :
    (db.standing ip).Covered ↔ ∀ row, db.pool.get? ip = some row → (db.checks.of ip).length ≤ row.historyCount := by
  rw [← IpChecks.length_newestFirst]
  constructor
  · intro h row hrow
    exact h row.summary (by rw [Database.standing, hrow]; rfl)
  · intro h row hrow
    obtain ⟨row', hrow', rfl⟩ := Option.map_eq_some_iff.1 hrow
    exact h row' hrow'

/-- A site is capped when all standings are covered. -/
theorem capped_iff {s : Store.Site} : Capped s ↔ ∀ ip, (s.db.standing ip).Covered := by
  constructor
  · exact fun h ip => covered_iff.2 (h.counted ip)
  · intro h
    refine ⟨fun ip => covered_iff.1 (h ip), fun ips => ?_⟩
    obtain ⟨s', hrun, hprune⟩ := run_pruneCheckHistory ips s
    refine ⟨s', hrun, fun ip hip hrow => ?_⟩
    have hpruned := hprune ip
    rw [if_pos hip] at hpruned
    rw [← IpChecks.length_newestFirst]
    have hlength := (h ip).length_prune (by rw [← hpruned, Database.standing]; simpa using hrow)
    rw [← hpruned] at hlength
    exact hlength

/-- A task leaves all standings covered exactly when it keeps the counts. -/
theorem complete_covered_iff {s s' : Store.Site} {t : Task} (h : complete s t = some s') :
    (∀ ip, (s'.db.standing ip).Covered) ↔ KeepsCount s t := by
  refine forall_congr' fun ip => ?_
  obtain ⟨rs, hrs, hstanding⟩ := complete_visits h ip
  rw [hstanding]
  exact Standing.visited_covered_iff hrs

/-- For any sequence of requests that complete: every state reached is capped if and only if every request keeps the counts. -/
theorem history_capped_iff (tasks : List Task) (s : Store.Site) (hr : run complete emptySite tasks = some s) :
    (∀ before s', before <+: tasks → run complete emptySite before = some s' → Capped s') ↔
        Meets complete KeepsCount emptySite tasks := by
  have hempty : Capped emptySite := capped_iff.2 fun ip => Standing.covered_none []
  have hstep : ∀ s t s', complete s t = some s' → Capped s → (Capped s' ↔ KeepsCount s t) :=
    fun s t s' h _ => capped_iff.trans (complete_covered_iff h)
  exact Transition.always_iff_meets (fun s hs => hs) hstep (fun s t s' h hc hs => (hstep s t s' h hs).2 hc) hr hempty

/-! ## Checks in order -/

/-- A request with a check in order completes. -/
theorem complete_reached (n rttMs : Int) (s : Store.Site) :
    complete s (reached n rttMs) = some ((start (reached n rttMs)).run serve s).2 := by
  obtain ⟨s', hrun⟩ := exists_run_reachedCheck n rttMs s
  unfold complete
  rw [start_reached, Interleave.Prog.run_bind_of_ok hrun]
  rfl

/-- A check in order leaves the site capped. -/
theorem keepsCount_inOrder {s s' : Store.Site} {n : Nat} (hn : n ≤ 300) (h : Alone s (standingInOrder n))
    (hs : complete s (reached n 10) = some s') : KeepsCount s (reached n 10) := by
  obtain rfl : ((start (reached n 10)).run serve s).2 = s' := Option.some.inj ((complete_reached n 10 s).symm.trans hs)
  have hnext := h.next n 10
  rw [insert_inOrder hn, report_inOrder hn] at hnext
  refine (complete_covered_iff hs).1 fun ip => ?_
  by_cases hip : ip = "8.8.8.8"
  · rw [hip, hnext.standing]
    exact (Standing.covered_some.2 (length_inOrder (n + 1)).le).prune
  · intro row _
    rw [hnext.others ip hip]
    exact Nat.zero_le _

/-- Checks in order complete and keep the counts. -/
theorem run_inOrder {n : Nat} (hn : n ≤ 301) :
    run complete emptySite (reachedInOrder n) = some (Interleave.inTurn start serve emptySite (reachedInOrder n)) ∧
      Meets complete KeepsCount emptySite (reachedInOrder n) := by
  induction n with
  | zero => exact ⟨rfl, trivial⟩
  | succ n ih =>
    obtain ⟨hrun, hmeets⟩ := ih (by omega)
    have halone := alone_inOrder (show n ≤ 300 by omega)
    have hnext := complete_reached n 10 (Interleave.inTurn start serve emptySite (reachedInOrder n))
    rw [reachedInOrder_succ, Interleave.inTurn_append]
    refine ⟨Transition.run_append.2 ⟨_, hrun, Transition.run_cons.2 ⟨_, hnext, rfl⟩⟩, hmeets.append fun s' hs' => ?_⟩
    obtain rfl := Option.some.inj (hrun.symm.trans hs')
    exact Meets.cons hnext (keepsCount_inOrder (by omega) halone hnext) trivial

/-- Of 301 checks in order 300 are left, and the site is capped. -/
theorem history_capped_in_order : ∃ s, run complete emptySite (reachedInOrder 301) = some s ∧
    (s.db.checks.of "8.8.8.8").length = 300 ∧ Capped s := by
  obtain ⟨hrun, hmeets⟩ := run_inOrder (le_refl 301)
  have hcapped := (history_capped_iff _ _ hrun).2 hmeets _ _ (List.prefix_refl _) hrun
  have hlength := congrArg List.length checks_overInOrder
  generalize Interleave.inTurn start serve emptySite (reachedInOrder 301) = s at hrun hcapped hlength
  refine ⟨s, hrun, ?_, hcapped⟩
  rw [List.length_take, length_inOrder] at hlength
  rw [← IpChecks.length_newestFirst]
  exact hlength

/-! ## A late check -/

/-- A check dated before the one that the pool row has is not counted. -/
theorem late_check_not_counted : ¬∀ tasks s, run complete emptySite tasks = some s → Capped s := by
  intro h
  obtain ⟨s, hs, hcount, hlength⟩ : ∃ s, run complete emptySite [reachedAt 2, reachedAt 1] = some s ∧
      (s.db.pool.get? "8.8.8.8").map PoolRow.historyCount = some 1 ∧ (s.db.checks.of "8.8.8.8").length = 2 :=
    ⟨_, rfl, by decide +kernel, by decide +kernel⟩
  obtain ⟨row, hrow, hone⟩ := Option.map_eq_some_iff.1 hcount
  have hle := (h _ s hs).counted "8.8.8.8" row hrow
  omega

end Gwsdb.Web
