import Gwsdb.Lemmas.Standing
import Gwsdb.Lib.Schedule

/-!
# Checks of one IP in order

A site that knows 8.8.8.8 only, and requests that say that it was reached, one second after the other. 300 of them fill the
history; the 301st is the first whose prune deletes a check, the oldest one. The runs of these requests are where the conditions
of the theorems about histories are tried.
-/

namespace Gwsdb.Web

open Gwsdb.Store
open Interleave (Prog Run inTurn)
open IsoTime (isoText)

/-! ## A request with one check -/

/-- A second of 2025, as an instant. -/
def atSecond (n : Int) : Int := 1756684800000 + 1000 * n

/-- Seconds around the start are ordered as their texts. -/
theorem isoText_atSecond_lt {a b : Int} (ha : -1000 ≤ a) (hb : b ≤ 1000) (h : a < b) :
    isoText (atSecond a) < isoText (atSecond b) := by
  have hyear : ∀ n : Int, -1000 ≤ n → n ≤ 1000 → IsoTime.FourDigitYear (atSecond n) := by
    intro n h₁ h₂
    exact IsoTime.fourDigitYear_of_bounds (by unfold atSecond; omega) (by unfold atSecond; omega)
  exact IsoTime.isoText_lt (hyear a ha (by omega)) (hyear b (by omega) hb) (by unfold atSecond; omega)

/-- A request that says that 8.8.8.8 was reached in a second. -/
def reached (n rttMs : Int) : Task :=
  .result (some ⟨"8.8.8.8", some true, some rttMs, none, none, .text "SNI", some (some (atSecond n))⟩)

/-- The row it inserts, under an id. -/
def reachedRow (n rttMs : Int) (id : Nat) : IpCheck :=
  ⟨⟨"8.8.8.8", true, some rttMs, some "recheck:ok", none, isoText (atSecond n), some "SNI"⟩, id⟩

/-- The check of the request. -/
def reachedCheck (n rttMs : Int) : RecheckResult := ⟨"8.8.8.8", true, some rttMs, none, none, some (atSecond n), .text "SNI"⟩

/-- The request stores its check. -/
theorem start_reached (n rttMs : Int) : start (reached n rttMs) = (do
    storeCheck (reachedCheck n rttMs)
    return .saved) := by
  have hread : readResult ⟨"8.8.8.8", some true, some rttMs, none, none, .text "SNI", some (some (atSecond n))⟩ =
      .ok (reachedCheck n rttMs) := by
    have hnormal : normalize "8.8.8.8" = some "8.8.8.8" := by decide +kernel
    simp [readResult, hnormal, reachedCheck]
  exact handleResult_of_ok hread

/-- The site knows 8.8.8.8 only, with a standing. -/
structure Alone (s : Store.Site) (st : Standing) : Prop where
  standing : s.db.standing "8.8.8.8" = st
  others : ∀ k, k ≠ "8.8.8.8" → (s.db.standing k).checks = []

/-- The row of the next check. -/
theorem Alone.next_row {s : Store.Site} {st : Standing} (h : Alone s st) (n rttMs : Int) :
    s.db.checks.next (reachedRow n rttMs 0).toNewCheck = reachedRow n rttMs (st.lastId + 1) := by
  rw [IpChecks.next, Database.maxId_of_alone h.others, h.standing]
  rfl

/-- The check has its row. -/
theorem recheckRow_reachedCheck (n rttMs : Int) : recheckRow (reachedCheck n rttMs) = .ok (reachedRow n rttMs 0).toNewCheck := rfl

/-- The check of a request run alone is stored. -/
theorem exists_run_reachedCheck (n rttMs : Int) (s : Store.Site) :
    ∃ s', (storeCheck (reachedCheck n rttMs)).run serve s = (.ok (), s') := by
  obtain ⟨s₁, h₁⟩ := exists_run_saveRecheckResult (recheckRow_reachedCheck n rttMs) s
  obtain ⟨s₂, h₂⟩ := exists_run_updatePoolForCheck "8.8.8.8" true (some rttMs) (rfl : toSQLiteDateTime (some (atSecond n)) = _)
    (rfl : (Bindable.text "SNI").bind = _) s₁
  obtain ⟨s', h₃, -⟩ := run_pruneCheckHistory ["8.8.8.8"] s₂
  exact ⟨s', (Interleave.Prog.run_bind_of_ok h₁).trans ((Interleave.Prog.run_bind_of_ok h₂).trans h₃)⟩

/-- A request run alone to its end. -/
theorem Alone.next {s : Store.Site} {st : Standing} (h : Alone s st) (n rttMs : Int) :
    Alone ((start (reached n rttMs)).run serve s).2
      ((st.insert (reachedRow n rttMs (st.lastId + 1))).report (checkReport true (isoText (atSecond n)))).prune := by
  have hrow := recheckRow_reachedCheck n rttMs
  obtain ⟨s', hrun⟩ := exists_run_reachedCheck n rttMs s
  have hstate : ((start (reached n rttMs)).run serve s).2 = s' := by
    rw [start_reached, Interleave.Prog.run_bind_of_ok hrun]
    rfl
  obtain ⟨ts, hts, hcases⟩ := run_storeCheck hrun
  cases hts
  rcases hcases with ⟨hfalse, -⟩ | ⟨-, row, hrow', -, hstanding⟩
  · cases hfalse
  · rw [hrow] at hrow'
    cases hrow'
    have hip : (reachedCheck n rttMs).ip = "8.8.8.8" := rfl
    rw [h.next_row, hip, h.standing] at hstanding
    rw [hstate]
    refine ⟨(hstanding "8.8.8.8").trans (if_pos rfl), fun k hk => ?_⟩
    rw [hstanding k, if_neg hk]
    exact h.others k hk

/-! ## Checks in order -/

/-- The checks of the first `n` seconds, newest first. -/
def inOrder (n : Nat) : List IpCheck := ((List.range n).map fun (i : Nat) => reachedRow i 10 (i + 1)).reverse

/-- The check of the next second is put in front. -/
theorem inOrder_succ (n : Nat) : inOrder (n + 1) = reachedRow n 10 (n + 1) :: inOrder n := by
  rw [inOrder, List.range_succ, List.map_append, List.reverse_append]
  rfl

theorem mem_inOrder {n : Nat} {r : IpCheck} : r ∈ inOrder n ↔ ∃ i < n, r = reachedRow i 10 (i + 1) := by
  simp [inOrder, eq_comm]

theorem length_inOrder (n : Nat) : (inOrder n).length = n := by simp [inOrder]

/-- The checks of the first seconds are before a later one. -/
theorem inOrder_lt {n : Nat} {r : IpCheck} (hr : r ∈ inOrder n) {t : Int} (h₁ : (n : Int) ≤ t) (h₂ : t ≤ 1000) :
    r.checkedAt < isoText (atSecond t) := by
  obtain ⟨i, hi, rfl⟩ := mem_inOrder.1 hr
  exact isoText_atSecond_lt (by omega) h₂ (by omega)

/-- They are after a second before the start. -/
theorem lt_inOrder {n : Nat} (hn : n ≤ 300) {r : IpCheck} (hr : r ∈ inOrder n) {t : Int} (h₁ : -1000 ≤ t) (h₂ : t < 0) :
    isoText (atSecond t) < r.checkedAt := by
  obtain ⟨i, hi, rfl⟩ := mem_inOrder.1 hr
  exact isoText_atSecond_lt h₁ (by omega) (by omega)

/-- The last id of a history in order is the number of its checks. -/
theorem lastId_inOrder (n : Nat) (row : Option PoolSummary) : (Standing.mk (inOrder n) row).lastId = n := by
  refine le_antisymm (Standing.lastId_le_iff.2 fun r hr => ?_) ?_
  · obtain ⟨i, hi, rfl⟩ := mem_inOrder.1 hr
    exact hi
  · cases n with
    | zero => exact Nat.zero_le _
    | succ n => exact Standing.lastId_le_iff.1 (le_refl _) (reachedRow n 10 (n + 1)) (mem_inOrder.2 ⟨n, n.lt_succ_self, rfl⟩)

/-- The summary after a success in a second. -/
def summaryAt (n : Int) (count : Nat) : PoolSummary :=
    ⟨some (isoText (atSecond n)), some (isoText (atSecond n)), some true, count⟩

/-- A report of a success. -/
theorem report_success (checks : List IpCheck) (row : PoolSummary) (ts : String) :
    (Standing.mk checks (some row)).report (checkReport true ts) =
      ⟨checks, some ⟨some ts, some ts, some true,
        row.historyCount + (Standing.mk checks (some row)).countAfter row.lastCheckedAt⟩⟩ := rfl

/-- With a success among the checks a prune buries nothing. -/
theorem prune_reached {checks : List IpCheck} {row : PoolSummary} (hall : ∀ r ∈ checks, r.ok = true) (hne : checks ≠ []) :
    (Standing.mk checks (some row)).prune = if CHECK_HISTORY_RETENTION < row.historyCount then
      ⟨checks.take CHECK_HISTORY_RETENTION, some { row with historyCount := (checks.take CHECK_HISTORY_RETENTION).length }⟩
      else ⟨checks, some row⟩ := by
  have hbury : ∀ (l : List IpCheck) (row : PoolSummary), (∀ r ∈ l, r.ok = true) → l ≠ [] →
      (Standing.mk l (some row)).bury = ⟨l, some row⟩ := by
    intro l row hl hl'
    obtain ⟨r, hr⟩ := List.exists_mem_of_ne_nil l hl'
    exact if_neg fun h => h.2 ⟨r, hr, hl r hr⟩
  unfold Standing.prune
  by_cases hover : CHECK_HISTORY_RETENTION < row.historyCount
  · rw [if_pos hover, Standing.cut]
    simp only [if_pos hover]
    refine hbury _ _ (fun r hr => hall r (List.mem_of_mem_take hr)) fun hnil => hne ?_
    rcases List.take_eq_nil_iff.1 hnil with h | h
    · cases h
    · exact h
  · rw [if_neg hover, Standing.cut]
    simp only [if_neg hover]
    exact hbury _ _ hall hne

/-- All of them are reachable. -/
theorem ok_inOrder (n : Nat) : ∀ r ∈ inOrder n, r.ok = true := by
  intro r hr
  obtain ⟨i, -, rfl⟩ := mem_inOrder.1 hr
  rfl

/-- The standing after the checks of the first `n` seconds. -/
def standingInOrder (n : Nat) : Standing := ⟨inOrder n, if n = 0 then none else some (summaryAt (n - 1) n)⟩

/-- One more check is the newest. -/
theorem insert_inOrder {n : Nat} (hn : n ≤ 300) :
    (standingInOrder n).insert (reachedRow n 10 ((standingInOrder n).lastId + 1)) =
        ⟨inOrder (n + 1), (standingInOrder n).row⟩ := by
  have hnewest : ∀ r ∈ inOrder n, r.checkedAt < (reachedRow n 10 (n + 1)).checkedAt :=
    fun r hr => inOrder_lt hr (le_refl _) (by omega)
  have hid : (standingInOrder n).lastId = n := lastId_inOrder n _
  rw [hid, standingInOrder, Standing.insert_newest hnewest, inOrder_succ]

/-- Its report counts it. -/
theorem report_inOrder {n : Nat} (hn : n ≤ 300) : (Standing.mk (inOrder (n + 1)) (standingInOrder n).row).report
    (checkReport true (isoText (atSecond n))) = ⟨inOrder (n + 1), some (summaryAt n (n + 1))⟩ := by
  cases n with
  | zero => rfl
  | succ n =>
    have hprev : (((n + 1 : Nat) : Int) - 1) = n := by omega
    have hhead : ∀ r ∈ [reachedRow ((n + 1 : Nat) : Int) 10 (n + 2)], isoText (atSecond n) < r.checkedAt := by
      intro r hr
      rw [List.mem_singleton.1 hr]
      exact isoText_atSecond_lt (by omega) (by omega) (by omega)
    have hrest : ∀ r ∈ inOrder (n + 1), ¬isoText (atSecond n) < r.checkedAt := by
      intro r hr
      obtain ⟨i, hi, rfl⟩ := mem_inOrder.1 hr
      rcases Nat.lt_or_eq_of_le (Nat.le_of_lt_succ hi) with hlt | rfl
      · exact lt_asymm (isoText_atSecond_lt (by omega) (by omega) (by omega))
      · exact lt_irrefl _
    have hafter : ∀ row, (Standing.mk (inOrder (n + 2)) row).countAfter (some (isoText (atSecond n))) = 1 := by
      intro row
      rw [inOrder_succ, ← List.singleton_append, Standing.countAfter_append, Standing.countAfter_eq_length hhead,
        Standing.countAfter_eq_zero hrest]
      rfl
    rw [standingInOrder, if_neg (Nat.succ_ne_zero n), report_success]
    simp only [summaryAt, hprev, hafter]

theorem inOrder_ne_nil (n : Nat) : inOrder (n + 1) ≠ [] := by
  rw [inOrder_succ]
  exact List.cons_ne_nil _ _

/-- One more check in order. -/
theorem next_inOrder {n : Nat} (hn : n < 300) :
    (((standingInOrder n).insert (reachedRow n 10 ((standingInOrder n).lastId + 1))).report
      (checkReport true (isoText (atSecond n)))).prune = standingInOrder (n + 1) := by
  rw [insert_inOrder hn.le, report_inOrder hn.le, prune_reached (ok_inOrder _) (inOrder_ne_nil n),
    if_neg (by simp only [summaryAt, CHECK_HISTORY_RETENTION]; omega), standingInOrder, if_neg (Nat.succ_ne_zero n)]
  simp

/-- The check after 300 in order: the prune keeps the newest 300. -/
theorem next_full : ((((standingInOrder 300).insert (reachedRow (300 : Nat) 10 ((standingInOrder 300).lastId + 1))).report
    (checkReport true (isoText (atSecond (300 : Nat))))).prune).checks = (inOrder 301).take CHECK_HISTORY_RETENTION := by
  rw [insert_inOrder (le_refl _), report_inOrder (le_refl _), prune_reached (ok_inOrder _)
    (inOrder_ne_nil 300), if_pos (by decide)]

/-- The requests of the first `n` seconds. -/
def reachedInOrder (n : Nat) : List Task := (List.range n).map fun (i : Nat) => reached i 10

/-- The request of the next second comes last. -/
theorem reachedInOrder_succ (n : Nat) : reachedInOrder (n + 1) = reachedInOrder n ++ [reached n 10] := by
  rw [reachedInOrder, List.range_succ, List.map_append]
  rfl

/-- After them 8.8.8.8 stands in order. -/
theorem alone_inOrder {n : Nat} (hn : n ≤ 300) : Alone (inTurn start serve emptySite (reachedInOrder n)) (standingInOrder n) := by
  induction n with
  | zero => exact ⟨rfl, fun _ _ => rfl⟩
  | succ n ih =>
    rw [reachedInOrder_succ, Interleave.inTurn_append, ← next_inOrder (by omega)]
    exact (ih (by omega)).next n 10

/-! ## One check more -/

/-- After 301 checks in order the newest 300 are left. -/
theorem checks_overInOrder : ((inTurn start serve emptySite (reachedInOrder 301)).db.standing "8.8.8.8").checks =
    (inOrder 301).take CHECK_HISTORY_RETENTION := by
  rw [reachedInOrder_succ, Interleave.inTurn_append, Interleave.inTurn_cons, Interleave.inTurn_nil,
    ((alone_inOrder (le_refl 300)).next (300 : Nat) 10).standing]
  exact next_full

/-- The run of 301 requests in turn. -/
def overRun : Run start serve := Run.ofTasks start serve (.prune []) emptySite (reachedInOrder 301)

/-- Where a request deletes checks, they are of 8.8.8.8, and its own check is there. -/
theorem Alone.deletes {s s' : Store.Site} {st : Standing} (h : Alone s st) {n rttMs : Int} {stmts : List Stmt} {ips : List String}
    {k : Nat} (hv : (start (reached n rttMs)).Visits serve s (.batch stmts) s') (hm : Stmt.deleteOldChecks ips k ∈ stmts) :
    k = CHECK_HISTORY_RETENTION ∧ (∀ ip ∈ ips, ip = "8.8.8.8") ∧
      (s'.db.standing "8.8.8.8").checks = (st.insert (reachedRow n rttMs (st.lastId + 1))).checks := by
  rw [start_reached] at hv
  rcases Prog.Visits.bind_cases hv with hv | ⟨_, _, -, hv⟩
  swap
  · exact hv.elim
  obtain ⟨hk, hips, s₁, ts, hsave, -, hstanding⟩ := deletes_of_storeCheck hv hm
  refine ⟨hk, fun ip hip => ?_, ?_⟩
  · rw [hips] at hip
    obtain ⟨e, he, rfl⟩ := List.mem_map.1 hip
    simp only [List.mem_filter, decide_eq_true_eq] at he
    exact List.mem_singleton.1 he.2.1
  · rcases run_saveRecheckResult hsave with ⟨hfalse, -⟩ | ⟨-, row, hrow, rfl⟩
    · cases hfalse
    rw [recheckRow_reachedCheck] at hrow
    cases hrow
    have hchecks := congrArg Standing.checks hstanding
    have hip : (reachedCheck n rttMs).ip = "8.8.8.8" := rfl
    have hrow : (reachedRow n rttMs 0).ip = "8.8.8.8" := rfl
    rw [hip, Database.standing_insert, h.next_row, if_pos hrow, h.standing] at hchecks
    exact hchecks

/-- A part of the requests in order, and the one after it. -/
theorem reachedInOrder_split {n : Nat} {us vs : List Task} {t : Task} (h : reachedInOrder n = us ++ t :: vs) :
    ∃ j < n, us = reachedInOrder j ∧ t = reached j 10 := by
  have hlength := congrArg List.length h
  rw [reachedInOrder, List.length_map, List.length_range, List.length_append, List.length_cons] at hlength
  have hj : us.length < n := by omega
  refine ⟨us.length, hj, ?_, ?_⟩
  · have htake := congrArg (List.take us.length) h
    rw [List.take_left' rfl, reachedInOrder, ← List.map_take, List.take_range, Nat.min_eq_left hj.le] at htake
    exact htake.symm
  · have hget := congrArg (fun l => l[us.length]?) h
    simp only [reachedInOrder, List.getElem?_map, List.getElem?_range hj, Option.map_some, List.getElem?_append_right (le_refl _),
      Nat.sub_self, List.getElem?_cons_zero, Option.some.injEq] at hget
    exact hget.symm

/-- In a history in order, a row whose id no other one exceeds is the newest. -/
theorem rowNumber_inOrder {t : IpChecks} {n : Nat} (hn : n ≤ 301) (h : t.newestFirst "8.8.8.8" = inOrder n) {r : IpCheck}
    (hr : r ∈ t.of "8.8.8.8") (hlast : ∀ r' ∈ t.of "8.8.8.8", r'.id ≤ r.id) : t.rowNumber r = 1 := by
  have hmem : ∀ r', r' ∈ t.of "8.8.8.8" ↔ r' ∈ inOrder n := by
    intro r'
    rw [← h, IpChecks.mem_newestFirst, IpChecks.mem_of]
  obtain ⟨i, hi, rfl⟩ := mem_inOrder.1 ((hmem r).1 hr)
  have hnone : ∀ r' ∈ t.of "8.8.8.8", ¬r'.Newer (reachedRow i 10 (i + 1)) := by
    intro r' hr' hnewer
    have hle := hlast r' hr'
    obtain ⟨j, hj, rfl⟩ := mem_inOrder.1 ((hmem r').1 hr')
    have hji : j ≤ i := Nat.le_of_succ_le_succ hle
    rcases hnewer with hlt | ⟨-, hlt⟩
    · rcases Nat.lt_or_eq_of_le hji with hji | rfl
      · exact lt_asymm hlt (isoText_atSecond_lt (by omega) (by omega) (by omega))
      · exact lt_irrefl _ hlt
    · exact absurd (Nat.lt_of_succ_lt_succ hlt) (not_lt.2 hji)
  rw [IpChecks.rowNumber]
  show (t.of "8.8.8.8").countP _ + 1 = 1
  rw [List.countP_eq_zero.2 fun r' hr' => by simpa using hnone r' hr']

/-- Where the run deletes checks, they are of 8.8.8.8, and the row with the greatest id of its history is the newest. -/
theorem overRun_deletes {n : Nat} {stmts : List Stmt} {ips : List String} {k : Nat} (hl : overRun.label n = some (.batch stmts))
    (hm : Stmt.deleteOldChecks ips k ∈ stmts) : k = CHECK_HISTORY_RETENTION ∧ (∀ ip ∈ ips, ip = "8.8.8.8") ∧
      ∀ r ∈ (overRun.state n).db.checks.of "8.8.8.8", (∀ r' ∈ (overRun.state n).db.checks.of "8.8.8.8", r'.id ≤ r.id) →
        (overRun.state n).db.checks.rowNumber r = 1 := by
  obtain ⟨us, t, vs, hsplit, hvisits⟩ := Run.visits_ofTasks hl
  obtain ⟨j, hj, rfl, rfl⟩ := reachedInOrder_split hsplit
  obtain ⟨hk, hips, hchecks⟩ := (alone_inOrder (by omega)).deletes hvisits hm
  rw [insert_inOrder (by omega)] at hchecks
  exact ⟨hk, hips, fun r hr hlast => rowNumber_inOrder (by omega) hchecks hr hlast⟩

/-- The first call of a request inserts its check. -/
theorem runFor_reached (n rttMs : Int) (s : Store.Site) : (start (reached n rttMs)).runFor serve 1 s =
    { s with db := { s.db with checks := s.db.checks.insert (reachedRow n rttMs 0).toNewCheck } } := by
  rw [start_reached]
  rfl

/-- The history after the first call of one more request in order. -/
theorem runFor_inOrder {s : Store.Site} {n : Nat} (h : Alone s (standingInOrder n)) (hn : n ≤ 300) :
    (((start (reached n 10)).runFor serve 1 s).db.standing "8.8.8.8").checks = inOrder (n + 1) := by
  have hip : (reachedRow n 10 0).ip = "8.8.8.8" := rfl
  rw [runFor_reached, Database.standing_insert, if_pos hip, h.next_row, h.standing, insert_inOrder hn]

/-- The run has a moment with 301 checks in the history, before a prune, and a later one with the newest 300 of them. -/
theorem overRun_moments : ∃ m n, m ≤ n ∧ ((overRun.state m).db.standing "8.8.8.8").checks = inOrder 301 ∧
    ((overRun.state n).db.standing "8.8.8.8").checks = (inOrder 301).take CHECK_HISTORY_RETENTION := by
  have hsucc : reachedInOrder 301 = reachedInOrder 300 ++ [reached (300 : Nat) 10] := reachedInOrder_succ 300
  have hfull : Alone (inTurn start serve emptySite (reachedInOrder 300)) (standingInOrder 300) := alone_inOrder (le_refl _)
  obtain ⟨m, n, hmn, hm, hn⟩ := Run.exists_ofTasks_within start serve (.prune []) emptySite
    (reachedInOrder 300) (reached (300 : Nat) 10) 1
  refine ⟨m, n, hmn, ?_, ?_⟩
  · rw [overRun, hsucc, hm]
    exact runFor_inOrder hfull (le_refl 300)
  · rw [overRun, hsucc, hn, ← hsucc]
    exact checks_overInOrder

/-- At both moments the version of the history is 301. -/
theorem lastId_overRun {n : Nat} (h : ((overRun.state n).db.standing "8.8.8.8").checks = inOrder 301 ∨
    ((overRun.state n).db.standing "8.8.8.8").checks = (inOrder 301).take CHECK_HISTORY_RETENTION) :
    (overRun.state n).db.ipHistoryVersion "8.8.8.8" = 301 := by
  rw [Database.ipHistoryVersion_eq]
  generalize (overRun.state n).db.standing "8.8.8.8" = st at h
  have hsub : ∀ r ∈ st.checks, r ∈ inOrder 301 := by
    rcases h with h | h <;> rw [h]
    · exact fun r hr => hr
    · exact fun r hr => List.mem_of_mem_take hr
  have hhead : reachedRow (300 : Nat) 10 301 ∈ st.checks := by
    rcases h with h | h <;> rw [h, inOrder_succ] <;> exact List.mem_cons_self
  refine le_antisymm (Standing.lastId_le_iff.2 fun r hr => ?_) (Standing.lastId_le_iff.1 (le_refl _) _ hhead)
  obtain ⟨i, hi, rfl⟩ := mem_inOrder.1 (hsub r hr)
  exact hi

end Gwsdb.Web
