import Gwsdb.Lemmas.ChecksInOrder

/-!
# The version of a history as a change signal

A client keeps the history of an IP under the greatest id among its rows, and reads it again when that number has
changed. Ids grow with arrival, and the history is ordered by time, so a row may come in behind the window that is shown
and be pruned at once. The number is sound as long as no id is given twice, that is, as long as no prune deletes the row
with the greatest id of the table.
-/

namespace Gwsdb.Store

/-- The rows of a history that are shown. -/
def IpChecks.window (t : IpChecks) (ip : String) : List IpCheck := (t.newestFirst ip).take CHECK_HISTORY_RETENTION

/-- A prune of the listed IPs keeps the row with the greatest id of the table. -/
def Database.KeepsLastId (db : Database) (ips : List String) (retention : Nat) : Prop :=
  ∀ r, db.checks.rows.getLast? = some r → r.ip ∈ ips → db.checks.rowNumber r ≤ retention

/-! ## What a window may become -/

/-- Since a moment when the version of a history was `v` and its window `w`, no id up to `v` was given again, and a row with a
later id came into the window unless the window is still `w`. -/
structure Follows (ip : String) (v : Nat) (w : List IpCheck) (t : IpChecks) : Prop where
  version_le : v ≤ t.maxId
  window : (∃ r ∈ t.window ip, v < r.id) ∨ t.window ip = w

/-- An insert brings a row with a later id into the window, or leaves the window as it is. -/
theorem Follows.insert {ip : String} {v : Nat} {w : List IpCheck} {t : IpChecks} (h : Follows ip v w t) (row : NewCheck) :
    Follows ip v w (t.insert row) := by
  by_cases hkey : t.HasKey row
  · rw [IpChecks.insert_of_hasKey hkey]
    exact h
  rw [IpChecks.insert_of_not_hasKey hkey]
  refine ⟨?_, ?_⟩
  · rw [IpChecks.maxId_append]
    exact h.version_le.trans (Nat.le_succ _)
  by_cases hip : row.ip = ip
  · subst hip
    unfold IpChecks.window
    rw [IpChecks.newestFirst_append]
    rcases Ranked.mem_or_take_orderedInsert (r := IpCheck.Newer) (t.next row) (t.newestFirst row.ip) CHECK_HISTORY_RETENTION
      with hin | hsame
    · exact Or.inl ⟨t.next row, hin, Nat.lt_succ_of_le h.version_le⟩
    · rw [hsame]
      exact h.window
  · unfold IpChecks.window
    rw [IpChecks.newestFirst_append_ne hkey hip]
    exact h.window

/-- A prune leaves the window as it is. -/
theorem Follows.retain {ip : String} {v : Nat} {w : List IpCheck} {db : Database}
    (h : Follows ip v w db.checks) {ips : List String}
    (hlast : db.KeepsLastId ips CHECK_HISTORY_RETENTION) : Follows ip v w (db.checks.retain ips CHECK_HISTORY_RETENTION) := by
  refine ⟨?_, ?_⟩
  · rw [IpChecks.maxId_retain hlast]
    exact h.version_le
  · unfold IpChecks.window
    rw [IpChecks.take_newestFirst_retain]
    exact h.window

end Gwsdb.Store

namespace Gwsdb.Web

open Gwsdb.Store
open Interleave (Run inTurn)
open IsoTime (isoText)

/-- What inserts and the prunes of a call keep, an allowed call keeps. -/
theorem serve_checks {I : IpChecks → Prop} {s : Store.Site} {e : Store.Call} (he : Allowed e)
    (hinsert : ∀ t row, I t → I (t.insert row))
    (hretain : ∀ stmts ips, e = .batch stmts → Stmt.deleteOldChecks ips CHECK_HISTORY_RETENTION ∈ stmts →
      I s.db.checks → I (s.db.checks.retain ips CHECK_HISTORY_RETENTION))
    (h : I s.db.checks) : I (serve e s).2.db.checks := by
  cases e with
  | batch stmts =>
    have hdb : (serve (.batch stmts) s).2.db = s.db.after stmts := Database.batch_snd s.db stmts
    rw [hdb]
    have hbatch : WriteBatch stmts := he
    rcases hbatch.checks_cases with hsame | hinserts | ⟨ips, rfl⟩
    · rw [hsame s.db]
      exact h
    · refine Database.after_invariant (I := fun db => I db.checks) (fun db stmt hstmt hdb => ?_) hinserts h
      obtain ⟨row, hrow⟩ := Option.isSome_iff_exists.1 hstmt
      rcases Database.exec_insert db hrow with heq | heq
      · rw [heq]
        exact hdb
      · rw [heq]
        exact hinsert _ row hdb
    · exact hretain _ ips rfl List.mem_cons_self h
  | _ => exact h

/-- An allowed call keeps what follows from a moment, if it does not delete the greatest id. -/
theorem serve_follows {ip : String} {v : Nat} {w : List IpCheck} {s : Store.Site} {e : Store.Call} (he : Allowed e)
    (hlast : ∀ stmts ips k, e = .batch stmts → Stmt.deleteOldChecks ips k ∈ stmts → s.db.KeepsLastId ips k)
    (h : Follows ip v w s.db.checks) : Follows ip v w (serve e s).2.db.checks :=
  serve_checks he (fun _ row ht => ht.insert row) (fun stmts ips heq hm ht => ht.retain (hlast stmts ips _ heq hm)) h

/-- In a run that never prunes the row with the greatest id of the table, what follows from a moment holds later. -/
theorem follows_later (r : Run start serve)
    (hlast : ∀ n stmts ips k, r.label n = some (.batch stmts) → Stmt.deleteOldChecks ips k ∈ stmts →
      (r.state n).db.KeepsLastId ips k)
    (ip : String) {m n : Nat} (hmn : m ≤ n) :
    Follows ip ((r.state m).db.ipHistoryVersion ip) ((r.state m).db.checks.window ip) (r.state n).db.checks := by
  refine r.invariant_from (I := fun s => Follows ip _ _ s.db.checks) ?_ ?_ n hmn
  · exact ⟨(r.state m).db.ipHistoryVersion_le_maxId ip, Or.inr rfl⟩
  · intro k e _ hl hk
    refine serve_follows (r.makes_label makes_start hl) ?_ hk
    rintro stmts ips k' rfl hm
    exact hlast k stmts ips k' hl hm

/-- In every run in which no prune deletes the row with the greatest id of `ip_checks`, an IP has the same history whenever its
history has the same version. -/
theorem history_version_sound (r : Run start serve)
    (hlast : ∀ n stmts ips k, r.label n = some (.batch stmts) → Stmt.deleteOldChecks ips k ∈ stmts →
      (r.state n).db.KeepsLastId ips k)
    {ip : String} {m n : Nat} (h : (r.state m).db.ipHistoryVersion ip = (r.state n).db.ipHistoryVersion ip) :
    (r.state m).db.ipHistory ip CHECK_HISTORY_RETENTION 0 = (r.state n).db.ipHistory ip CHECK_HISTORY_RETENTION 0 := by
  wlog hmn : m ≤ n generalizing m n
  · exact (this h.symm (Nat.le_of_not_le hmn)).symm
  have hwindow : (r.state n).db.checks.window ip = (r.state m).db.checks.window ip := by
    rcases (follows_later r hlast ip hmn).window with ⟨row, hrow, hlt⟩ | hsame
    · have hle := Database.le_ipHistoryVersion (IpChecks.mem_of.2 (IpChecks.mem_newestFirst.1 (List.mem_of_mem_take hrow)))
      omega
    · exact hsame
  unfold Database.ipHistory
  rw [List.drop_zero, List.drop_zero]
  exact congrArg (List.map IpCheck.toHistoryRow) hwindow.symm

/-! ## 301 checks in order -/

theorem overRun_keepsLastId {n : Nat} {stmts : List Stmt} {ips : List String} {k : Nat}
    (hl : overRun.label n = some (.batch stmts))
    (hm : Stmt.deleteOldChecks ips k ∈ stmts) : (overRun.state n).db.KeepsLastId ips k := by
  obtain ⟨rfl, hips, hfirst⟩ := overRun_deletes hl hm
  intro r hlast hip
  have hrow : r ∈ (overRun.state n).db.checks.of "8.8.8.8" := IpChecks.mem_of.2 ⟨List.mem_of_getLast? hlast, hips _ hip⟩
  have hmax : (overRun.state n).db.checks.maxId = r.id := by
    rw [IpChecks.maxId, hlast]
    rfl
  rw [hfirst r hrow fun r' hr' => hmax ▸ IpChecks.le_maxId _ r' (IpChecks.mem_of.1 hr').1]
  decide

/-- Before and after the prune of the 301st check the version is 301 and the history is the same, while a row is gone. -/
theorem history_version_sound_pruned : ∃ m n, (overRun.state m).db.historyCount "8.8.8.8" = 301 ∧
    (overRun.state n).db.historyCount "8.8.8.8" = 300 ∧ (overRun.state m).db.ipHistoryVersion "8.8.8.8" = 301 ∧
    (overRun.state n).db.ipHistoryVersion "8.8.8.8" = 301 ∧
    (overRun.state m).db.ipHistory "8.8.8.8" CHECK_HISTORY_RETENTION 0 =
      (overRun.state n).db.ipHistory "8.8.8.8" CHECK_HISTORY_RETENTION 0 := by
  obtain ⟨m, n, -, hm, hn⟩ := overRun_moments
  have hvm := lastId_overRun (Or.inl hm)
  have hvn := lastId_overRun (Or.inr hn)
  refine ⟨m, n, ?_, ?_, hvm, hvn, history_version_sound overRun (fun _ _ _ _ => overRun_keepsLastId) (hvm.trans hvn.symm)⟩
  · rw [Database.historyCount_eq, hm, length_inOrder]
  · rw [Database.historyCount_eq, hn, List.length_take, length_inOrder]
    rfl

/-! ## A number given twice -/

/-- The standing after a check older than all `n` in order came in. -/
def standingLate (n : Nat) : Standing := ⟨inOrder n ++ [reachedRow (-1) 10 (n + 1)], some (summaryAt (-1) n)⟩

theorem ok_late (n : Nat) : ∀ r ∈ inOrder n ++ [reachedRow (-1) 10 (n + 1)], r.ok = true := by
  intro r hr
  rcases List.mem_append.1 hr with hr | hr
  · exact ok_inOrder n r hr
  · rw [List.mem_singleton.1 hr]
    rfl

/-- The count does not see the late check, and it stays. -/
theorem next_late {n : Nat} (hn : n = 300) : (((standingInOrder n).insert
    (reachedRow (-1) 10 ((standingInOrder n).lastId + 1))).report
    (checkReport true (isoText (atSecond (-1))))).prune = standingLate n := by
  have holdest : ∀ r ∈ inOrder n, (reachedRow (-1) 10 (n + 1)).checkedAt < r.checkedAt := by
    intro r hr
    exact lt_inOrder (by omega) hr (by decide) (by decide)
  have hnone : ∀ r ∈ inOrder n ++ [reachedRow (-1) 10 (n + 1)], ¬isoText (atSecond ((n : Int) - 1)) < r.checkedAt := by
    intro r hr
    rcases List.mem_append.1 hr with hr | hr
    · obtain ⟨i, hi, rfl⟩ := mem_inOrder.1 hr
      rcases Nat.lt_or_eq_of_le (Nat.le_sub_one_of_lt hi) with hlt | rfl
      · exact lt_asymm (isoText_atSecond_lt (by omega) (by omega) (by omega))
      · rw [Int.ofNat_sub (by omega : 1 ≤ n)]
        exact lt_irrefl _
    · rw [List.mem_singleton.1 hr]
      exact lt_asymm (isoText_atSecond_lt (by omega) (by omega) (by omega))
  have hid : (standingInOrder n).lastId = n := lastId_inOrder n _
  rw [hid, standingInOrder, if_neg (by omega : n ≠ 0), Standing.insert_oldest holdest, report_success]
  simp only [summaryAt, Standing.countAfter_eq_zero hnone]
  rw [prune_reached (ok_late n) (by simp), if_neg (by simp [CHECK_HISTORY_RETENTION, hn])]
  rfl

theorem lastId_late (n : Nat) : (standingLate n).lastId = n + 1 := by
  refine le_antisymm (Standing.lastId_le_iff.2 fun r hr => ?_) ?_
  · rcases List.mem_append.1 hr with hr | hr
    · obtain ⟨i, hi, rfl⟩ := mem_inOrder.1 hr
      exact Nat.le_succ_of_le hi
    · rw [List.mem_singleton.1 hr]
      exact le_refl _
  · exact Standing.lastId_le_iff.1 (le_refl _) (reachedRow (-1) 10 (n + 1)) (List.mem_append_right _ (List.mem_singleton_self _))

/-- The count sees all checks after the late one, and the prune deletes both late ones. -/
theorem next_late_again {n : Nat} (hn : n = 300) :
    (((standingLate n).insert (reachedRow (-2) 10 ((standingLate n).lastId + 1))).report
    (checkReport true (isoText (atSecond (-2))))).prune = ⟨inOrder n, some (summaryAt (-2) n)⟩ := by
  have holdest : ∀ r ∈ inOrder n ++ [reachedRow (-1) 10 (n + 1)], (reachedRow (-2) 10 (n + 2)).checkedAt < r.checkedAt := by
    intro r hr
    rcases List.mem_append.1 hr with hr | hr
    · exact lt_inOrder (by omega) hr (by decide) (by decide)
    · rw [List.mem_singleton.1 hr]
      exact isoText_atSecond_lt (by decide) (by decide) (by decide)
  have hafter : ∀ row, (Standing.mk (inOrder n ++ [reachedRow (-1) 10 (n + 1)] ++ [reachedRow (-2) 10 (n + 2)]) row).countAfter
      (some (isoText (atSecond (-1)))) = n := by
    intro row
    have hlater : ∀ r ∈ inOrder n, isoText (atSecond (-1)) < r.checkedAt := fun r hr =>
      lt_inOrder (by omega) hr (by decide) (by decide)
    have hnone : ∀ r ∈ [reachedRow (-1) 10 (n + 1), reachedRow (-2) 10 (n + 2)], ¬isoText (atSecond (-1)) < r.checkedAt := by
      intro r hr
      rcases List.mem_cons.1 hr with rfl | hr
      · exact lt_irrefl _
      · rw [List.mem_singleton.1 hr]
        exact lt_asymm (isoText_atSecond_lt (by decide) (by decide) (by decide))
    rw [List.append_assoc, List.singleton_append, Standing.countAfter_append, Standing.countAfter_eq_length hlater,
      Standing.countAfter_eq_zero hnone, length_inOrder]
    rfl
  have hok : ∀ r ∈ inOrder n ++ [reachedRow (-1) 10 (n + 1)] ++ [reachedRow (-2) 10 (n + 2)], r.ok = true := by
    intro r hr
    rcases List.mem_append.1 hr with hr | hr
    · exact ok_late n r hr
    · rw [List.mem_singleton.1 hr]
      rfl
  have htake : (inOrder n ++ [reachedRow (-1) 10 (n + 1)] ++ [reachedRow (-2) 10 (n + 2)]).take
      CHECK_HISTORY_RETENTION = inOrder n := by
    rw [List.append_assoc]
    exact List.take_left' ((length_inOrder n).trans hn)
  rw [lastId_late, standingLate, Standing.insert_oldest holdest, report_success]
  simp only [summaryAt, hafter]
  rw [prune_reached hok (by simp), if_pos (by simp [CHECK_HISTORY_RETENTION, hn]), htake, length_inOrder]

/-- The next check takes the number of the first late one. -/
theorem next_new {n : Nat} (hn : n = 300) : ((((Standing.mk (inOrder n) (some (summaryAt (-2) n))).insert
    (reachedRow 300 20 (n + 1))).report
    (checkReport true (isoText (atSecond 300)))).prune).checks = reachedRow 300 20 (n + 1) :: (inOrder n).take 299 := by
  have hnewest : ∀ r ∈ inOrder n, r.checkedAt < (reachedRow 300 20 (n + 1)).checkedAt := by
    intro r hr
    exact inOrder_lt hr (by omega) (by decide)
  have hafter : ∀ row, n ≤ (Standing.mk (reachedRow 300 20 (n + 1) :: inOrder n) row).countAfter
      (some (isoText (atSecond (-2)))) := by
    intro row
    have hlater : ∀ r ∈ inOrder n, isoText (atSecond (-2)) < r.checkedAt := fun r hr =>
      lt_inOrder (by omega) hr (by decide) (by decide)
    rw [← List.singleton_append, Standing.countAfter_append, Standing.countAfter_eq_length hlater, length_inOrder]
    exact Nat.le_add_left _ _
  have hok : ∀ r ∈ reachedRow 300 20 (n + 1) :: inOrder n, r.ok = true := by
    intro r hr
    rcases List.mem_cons.1 hr with rfl | hr
    · rfl
    · exact ok_inOrder n r hr
  rw [Standing.insert_newest hnewest, report_success, prune_reached hok (by simp), if_pos]
  · rfl
  · have h := hafter (some (summaryAt (-2) n))
    simp only [summaryAt, CHECK_HISTORY_RETENTION] at h ⊢
    omega

/-- Three hundred checks in order and a late one. -/
def firstChecks : List Task := (List.range 300).map (fun (i : Nat) => reached i 10) ++ [reached (-1) 10]

/-- A check later still, and a new one. -/
def laterChecks : List Task := [reached (-2) 10, reached 300 20]

theorem alone_firstChecks : Alone (inTurn start serve emptySite firstChecks) (standingLate 300) := by
  rw [firstChecks, Interleave.inTurn_append, Interleave.inTurn_cons, Interleave.inTurn_nil, ← next_late rfl]
  exact (alone_inOrder (le_refl _)).next (-1) 10

theorem alone_laterChecks : ∃ st, Alone (inTurn start serve emptySite (firstChecks ++ laterChecks)) st ∧
    st.checks = reachedRow 300 20 301 :: (inOrder 300).take 299 := by
  have hlate := alone_firstChecks.next (-2) 10
  rw [next_late_again rfl] at hlate
  have hnew := hlate.next 300 20
  rw [lastId_inOrder] at hnew
  rw [Interleave.inTurn_append, laterChecks, Interleave.inTurn_cons, Interleave.inTurn_cons, Interleave.inTurn_nil]
  exact ⟨_, hnew, next_new rfl⟩

/-- After two late checks and a new one the version of the history is back at a number, and the history is another one. -/
theorem version_returns : ∃ (r : Run start serve) (m n : Nat), r.state 0 = emptySite ∧
    (r.state m).db.ipHistoryVersion "8.8.8.8" = (r.state n).db.ipHistoryVersion "8.8.8.8" ∧
    (r.state m).db.ipHistory "8.8.8.8" CHECK_HISTORY_RETENTION 0 ≠
        (r.state n).db.ipHistory "8.8.8.8" CHECK_HISTORY_RETENTION 0 := by
  obtain ⟨r, m, n, hstart, hm, hn⟩ := Run.exists_inTurn start serve (.prune []) emptySite firstChecks laterChecks
  obtain ⟨st, hnew, hchecks⟩ := alone_laterChecks
  have hlate := alone_firstChecks
  refine ⟨r, m, n, hstart, ?_, ?_⟩
  · have hid : st.lastId = 301 := by
      refine le_antisymm (Standing.lastId_le_iff.2 fun r hr => ?_) ?_
      · rw [hchecks] at hr
        rcases List.mem_cons.1 hr with rfl | hr
        · exact le_refl _
        · obtain ⟨i, hi, rfl⟩ := mem_inOrder.1 (List.mem_of_mem_take hr)
          exact Nat.le_succ_of_le hi
      · exact Standing.lastId_le_iff.1 (le_refl _) (reachedRow 300 20 301) (by rw [hchecks]; exact List.mem_cons_self)
    rw [hm, hn, Database.ipHistoryVersion_eq, Database.ipHistoryVersion_eq, hlate.standing, hnew.standing, lastId_late, hid]
  · have hhistory : ∀ s st, Alone s st → s.db.ipHistory "8.8.8.8" CHECK_HISTORY_RETENTION 0 =
        (st.checks.take CHECK_HISTORY_RETENTION).map IpCheck.toHistoryRow := by
      rintro s st ⟨rfl, -⟩
      rfl
    rw [hm, hn, hhistory _ _ hlate, hhistory _ _ hnew, hchecks, standingLate]
    have hfirst : inOrder 300 = reachedRow 299 10 300 :: inOrder 299 := inOrder_succ 299
    intro heq
    have hhead := congrArg List.head? heq
    rw [hfirst] at hhead
    have hrtt := congrArg (Option.map IPCheckHistoryRow.rttMs) hhead
    exact absurd hrtt (by decide)

end Gwsdb.Web
