import Gwsdb.Lemmas.Visits

/-!
# The pool and the history

`ip_pool` was a view that ranked the checks of each IP. The table that replaced it takes the latest check and the success that a
request reports, whatever is stored already, so a check dated before one that is there puts the pool row back in time
(`late_check_taken_for_latest`). `pool_agrees` says that the pool row agrees with the checks while every request fits the history:
what it reports is the newest that there is.
-/

namespace Gwsdb.Store

/-! ## The newest of the checks -/

/-- The newest of some verdicts and times. -/
def Newest (l : List (Bool × String)) (x : Bool × String) : Prop := x ∈ l ∧ ∀ y ∈ l, y.2 ≤ x.2

instance (l : List (Bool × String)) (x : Bool × String) : Decidable (Newest l x) := inferInstanceAs (Decidable (_ ∧ _))

/-- The newest of a list is the newest in any order. -/
theorem Newest.perm {l l' : List (Bool × String)} (hl : l.Perm l') {x : Bool × String} (h : Newest l x) : Newest l' x :=
  ⟨hl.mem_iff.1 h.1, fun y hy => h.2 y (hl.mem_iff.2 hy)⟩

/-- Older ones do not matter. -/
theorem Newest.append {l l' : List (Bool × String)} {x : Bool × String} (h : Newest l x) (hold : ∀ y ∈ l', ∃ z ∈ l, y.2 < z.2) :
    Newest (l ++ l') x := by
  refine ⟨List.mem_append_left _ h.1, fun y hy => ?_⟩
  rcases List.mem_append.1 hy with hy | hy
  · exact h.2 y hy
  · obtain ⟨z, hz, hlt⟩ := hold y hy
    exact hlt.le.trans (h.2 z hz)

/-- Each check is dated after those behind it. -/
def Descending (checks : List IpCheck) : Prop := checks.Pairwise fun a b => b.checkedAt < a.checkedAt

/-- The order of the checks, where their times differ. -/
theorem descending_of {checks : List IpCheck} (h : checks.Pairwise IpCheck.Newer)
    (hne : checks.Pairwise fun a b => a.checkedAt ≠ b.checkedAt) : Descending checks := by
  refine (h.and hne).imp ?_
  rintro a b ⟨hlt | ⟨heq, -⟩, hne⟩
  · exact hlt
  · exact absurd heq.symm hne

/-- The standing checks of an IP descend. -/
theorem Database.standing_descending (db : Database) (ip : String) : Descending (db.standing ip).checks := by
  have hof : (db.checks.of ip).Pairwise fun a b => a.checkedAt ≠ b.checkedAt := by
    refine (db.checks.unique.sublist List.filter_sublist).imp_of_mem fun ha hb hne => ?_
    exact hne ((IpChecks.mem_of.1 ha).2.trans (IpChecks.mem_of.1 hb).2.symm)
  exact descending_of (db.checks.newestFirst_pairwise ip) (((List.perm_insertionSort _ _).pairwise_iff fun h => h.symm).2 hof)

/-- In descending checks the newest one is the first. -/
theorem Descending.newest_iff {checks : List IpCheck} (h : Descending checks) {x : Bool × String} :
    Newest (checks.map IpCheck.outcome) x ↔ ∃ newest, checks.head? = some newest ∧ newest.outcome = x := by
  cases checks with
  | nil => simp [Newest]
  | cons r checks =>
    have hafter := (List.pairwise_cons.1 h).1
    simp only [List.head?_cons, Option.some.injEq, exists_eq_left']
    constructor
    · rintro ⟨hx, hle⟩
      rcases List.mem_cons.1 hx with rfl | hx
      · rfl
      · obtain ⟨r', hr', rfl⟩ := List.mem_map.1 hx
        exact absurd (hle r.outcome List.mem_cons_self) (not_le.2 (hafter r' hr'))
    · rintro rfl
      refine ⟨List.mem_cons_self, fun y hy => ?_⟩
      rcases List.mem_cons.1 hy with rfl | hy
      · exact le_refl _
      · obtain ⟨r', hr', rfl⟩ := List.mem_map.1 hy
        exact (hafter r' hr').le

/-- The successful outcomes are those of the successful checks. -/
theorem filter_map_outcome (checks : List IpCheck) :
    (checks.map IpCheck.outcome).filter Prod.fst = (checks.filter (·.ok)).map IpCheck.outcome := by
  rw [List.filter_map]
  rfl

/-- In descending checks the newest reachable one is the first reachable one. -/
theorem Descending.newest_ok_iff {checks : List IpCheck} (h : Descending checks) {x : Bool × String} :
    Newest ((checks.map IpCheck.outcome).filter Prod.fst) x ↔ ∃ seen, checks.find? (·.ok) = some seen ∧ seen.outcome = x := by
  have hfilter : Descending (checks.filter (·.ok)) := h.sublist List.filter_sublist
  rw [filter_map_outcome, hfilter.newest_iff, List.head?_filter]

/-- The first descending checks hold each one that is not dated before one they hold. -/
theorem Descending.mem_take {checks : List IpCheck} (h : Descending checks) {k : Nat} {a b : IpCheck} (ha : a ∈ checks.take k)
    (hb : b ∈ checks) (hle : a.checkedAt ≤ b.checkedAt) : b ∈ checks.take k := by
  unfold Descending at h
  rw [← List.take_append_drop k checks] at h hb
  rcases List.mem_append.1 hb with hb | hb
  · exact hb
  · exact absurd hle (not_le.2 ((List.pairwise_append.1 h).2.2 a ha b hb))

/-- Inserting a check keeps the order. -/
theorem Descending.insert {st : Standing} (h : Descending st.checks) (r : IpCheck) : Descending (st.insert r).checks := by
  unfold Standing.insert
  split
  · exact h
  · rename_i hnew
    have hne : ∀ b ∈ st.checks, r.checkedAt ≠ b.checkedAt := fun b hb heq => hnew ⟨b, hb, heq.symm⟩
    refine descending_of (Ranked.pairwise_orderedInsert (h.imp Or.inl) fun b hb => ?_) ?_
    · exact (lt_or_gt_of_ne (hne b hb)).symm.imp Or.inl Or.inl
    · refine ((List.perm_orderedInsert _ _ _).pairwise_iff fun h => h.symm).2
        (List.pairwise_cons.2 ⟨hne, h.imp fun hlt => hlt.ne'⟩)

/-- So does inserting many. -/
theorem Descending.foldl_insert {st : Standing} (h : Descending st.checks) (rs : List IpCheck) :
    Descending (rs.foldl Standing.insert st).checks := by
  induction rs generalizing st with
  | nil => exact h
  | cons r rs ih => exact ih (h.insert r)

/-! ## One visit -/

/-- A pool row tells the latest check and the last success. -/
structure PoolSummary.Agrees (row : PoolSummary) (checks : List IpCheck) : Prop where
  latest : ∃ x, Newest (checks.map IpCheck.outcome) x ∧ row.lastCheckedAt = some x.2 ∧ row.lastCheckOk = some x.1
  seen : ∃ x, Newest ((checks.map IpCheck.outcome).filter Prod.fst) x ∧ row.lastSeen = some x.2

/-- The newest checks agree with what all agree with, where a reachable one is among them. -/
theorem PoolSummary.Agrees.take {checks : List IpCheck} (hd : Descending checks) {row : PoolSummary}
    (h : row.Agrees checks) {k : Nat}
    (hok : ∃ r ∈ checks.take k, r.ok = true) : row.Agrees (checks.take k) := by
  obtain ⟨⟨x, hx, hat, hlatest⟩, ⟨y, hy, hlastSeen⟩⟩ := h
  have hd' : Descending (checks.take k) := hd.sublist (List.take_sublist _ _)
  obtain ⟨r, hr, hrok⟩ := hok
  refine ⟨⟨x, ?_, hat, hlatest⟩, ⟨y, ?_, hlastSeen⟩⟩
  · obtain ⟨newest, hhead, heq⟩ := hd.newest_iff.1 hx
    have hk : k ≠ 0 := by
      rintro rfl
      cases hr
    exact hd'.newest_iff.2 ⟨newest, by rw [List.head?_take, if_neg hk, hhead], heq⟩
  · rw [filter_map_outcome] at hy ⊢
    obtain ⟨hy, hle⟩ := hy
    obtain ⟨seen, hseen, rfl⟩ := List.mem_map.1 hy
    obtain ⟨hseen, hseenOk⟩ := List.mem_filter.1 hseen
    have hrall : r ∈ checks.filter (·.ok) := List.mem_filter.2 ⟨List.mem_of_mem_take hr, hrok⟩
    have hmem : seen ∈ checks.take k := hd.mem_take hr hseen (hle r.outcome (List.mem_map_of_mem hrall))
    refine ⟨List.mem_map_of_mem (List.mem_filter.2 ⟨hmem, hseenOk⟩), fun z hz => ?_⟩
    obtain ⟨r', hr', rfl⟩ := List.mem_map.1 hz
    obtain ⟨hr', hok'⟩ := List.mem_filter.1 hr'
    exact hle r'.outcome (List.mem_map_of_mem (List.mem_filter.2 ⟨List.mem_of_mem_take hr', hok'⟩))

namespace Standing

/-- The pool row agrees with the checks, if there is one. -/
def Agreeing (st : Standing) : Prop := ∀ row, st.row = some row → row.Agrees st.checks

/-- What a visit reports is the newest of what is stored and what it lets in; without a report, it lets in
nothing newer than what is stored. -/
structure Fits (st : Standing) (v : Visit) : Prop where
  latest : ∀ rep ∈ v.report, st.row.isSome ∨ rep.success.isSome → Newest (st.known v) (rep.latestOk, rep.latestAt)
  success : ∀ rep ∈ v.report, ∀ at' ∈ rep.success, Newest ((st.known v).filter Prod.fst) (true, at')
  silent : v.report = none → st.row.isSome → ∀ x ∈ st.letIn v.checks, ∃ y ∈ st.outcomes, x.2 < y.2

instance (st : Standing) (v : Visit) : Decidable (st.Fits v) :=
  decidable_of_iff
    ((∀ rep ∈ v.report, st.row.isSome ∨ rep.success.isSome → Newest (st.known v) (rep.latestOk, rep.latestAt)) ∧
      (∀ rep ∈ v.report, ∀ at' ∈ rep.success, Newest ((st.known v).filter Prod.fst) (true, at')) ∧
        (v.report = none → st.row.isSome → ∀ x ∈ st.letIn v.checks, ∃ y ∈ st.outcomes, x.2 < y.2))
    ⟨fun h => ⟨h.1, h.2.1, h.2.2⟩, fun h => ⟨h.latest, h.success, h.silent⟩⟩

/-- A visit that does nothing fits. -/
theorem fits_of_nothing {st : Standing} {v : Visit} (hchecks : v.checks = []) (hreport : v.report = none) : st.Fits v := by
  refine ⟨fun rep hrep => ?_, fun rep hrep => ?_, fun _ _ x hx => ?_⟩
  · rw [hreport] at hrep
    cases hrep
  · rw [hreport] at hrep
    cases hrep
  · rw [hchecks] at hx
    cases hx

/-- A pool row that is left has a short history or a reachable check. -/
theorem bury_alive {st : Standing} {row : PoolSummary} (h : st.bury.row = some row) :
    st.bury = st ∧ (row.historyCount < CHECK_HISTORY_RETENTION ∨ ∃ r ∈ st.checks, r.ok = true) := by
  obtain ⟨checks, _ | row'⟩ := st
  · cases h
  simp only [bury] at h ⊢
  split at h
  · cases h
  · rename_i halive
    cases h
    rw [if_neg halive]
    refine ⟨rfl, ?_⟩
    rw [not_and_or, not_not, Nat.not_le] at halive
    exact halive

/-- Pruning keeps a standing in agreement. -/
theorem Agreeing.prune {st : Standing} (hd : Descending st.checks) (h : st.Agreeing) : st.prune.Agreeing := by
  intro row hrow
  obtain ⟨checks, _ | row'⟩ := st
  · cases hrow
  obtain ⟨hsame, halive⟩ := bury_alive hrow
  rw [Standing.prune] at hrow ⊢
  rw [hsame] at hrow ⊢
  have hagrees : row'.Agrees checks := h row' rfl
  simp only [cut] at hrow halive ⊢
  split at hrow
  · rename_i hover
    rw [if_pos hover] at halive ⊢
    cases hrow
    rcases halive with hshort | hok
    · -- fewer checks than the retention: none is cut
      simp only [List.length_take] at hshort
      have hall : checks.take CHECK_HISTORY_RETENTION = checks := List.take_of_length_le (by omega)
      rw [hall]
      exact ⟨hagrees.latest, hagrees.seen⟩
    · obtain ⟨hlatest, hseen⟩ := hagrees.take hd hok
      exact ⟨hlatest, hseen⟩
  · rename_i hunder
    rw [if_neg hunder]
    cases hrow
    exact hagrees

/-- The checks with a verdict of success, after a visit that reports none. -/
theorem known_ok {st : Standing} {v : Visit}
    (hok : ∀ x ∈ v.checks, x.1 = true → ∃ rep at', v.report = some rep ∧ rep.success = some at')
    (hnone : ∀ rep, v.report = some rep → rep.success = none) : (st.known v).filter Prod.fst = st.outcomes.filter Prod.fst := by
  have hfailed : (st.letIn v.checks).filter Prod.fst = [] := by
    refine List.filter_eq_nil_iff.2 fun x hx hxok => ?_
    obtain ⟨rep, at', hreport, hsuccess⟩ := hok x (Sieve.mem_of_mem_sift hx) hxok
    rw [hnone rep hreport] at hsuccess
    cases hsuccess
  rw [known, List.filter_append, hfailed, List.append_nil]

/-- The report of a visit that fits the checks. Where it reports a failure the last success stays. -/
theorem report_agreeing {st : Standing} (h : st.Agreeing) {v : Visit} (hfits : st.Fits v)
    (hok : ∀ x ∈ v.checks, x.1 = true → ∃ rep at', v.report = some rep ∧ rep.success = some at') {checks : List IpCheck}
    (hperm : (checks.map IpCheck.outcome).Perm (st.known v)) :
        (v.report.elim (mk checks st.row) (mk checks st.row).report).Agreeing := by
  intro row hrow
  cases hreport : v.report with
  | none =>
    rw [hreport] at hrow
    change st.row = some row at hrow
    obtain ⟨⟨x, hx, hlatest⟩, ⟨y, hy, hseen⟩⟩ := h row hrow
    refine ⟨⟨x, ?_, hlatest⟩, ⟨y, ?_, hseen⟩⟩
    · exact (hx.append (hfits.silent hreport (Option.isSome_of_eq_some hrow))).perm hperm.symm
    · refine Newest.perm (hperm.filter _).symm ?_
      rw [known_ok hok fun rep hrep => by rw [hreport] at hrep; cases hrep]
      exact hy
  | some rep =>
    rw [hreport] at hrow
    have hlatest : st.row.isSome ∨ rep.success.isSome → Newest (checks.map IpCheck.outcome) (rep.latestOk, rep.latestAt) :=
      fun hrow => (hfits.latest rep hreport hrow).perm hperm.symm
    have hsuccess : ∀ at', rep.success = some at' → Newest ((checks.map IpCheck.outcome).filter Prod.fst) (true, at') :=
      fun at' hat' => (hfits.success rep hreport at' hat').perm (hperm.filter _).symm
    cases hst : st.row with
    | none =>
      rw [hst] at hrow
      obtain ⟨at', hat', rfl⟩ := Option.map_eq_some_iff.1 hrow
      exact ⟨⟨_, hlatest (Or.inr (Option.isSome_of_eq_some hat')), rfl, rfl⟩, ⟨_, hsuccess at' hat', rfl⟩⟩
    | some old =>
      rw [hst] at hrow
      cases hrow
      refine ⟨⟨_, hlatest (Or.inl (Option.isSome_of_eq_some hst)), rfl, rfl⟩, ?_⟩
      cases hsucc : rep.success with
      | some at' => exact ⟨_, hsuccess at' hsucc, by simp⟩
      | none =>
        obtain ⟨y, hy, hseen⟩ := (h old hst).seen
        refine ⟨y, Newest.perm (hperm.filter _).symm ?_, by simpa using hseen⟩
        rw [known_ok hok fun rep' hrep' => by rw [hreport] at hrep'; cases hrep'; exact hsucc]
        exact hy

/-- A visit that fits the checks keeps the pool row in agreement with them. -/
theorem visited_agreeing {st : Standing} (hd : Descending st.checks) (h : st.Agreeing) {v : Visit} (hfits : st.Fits v)
    (hok : ∀ x ∈ v.checks, x.1 = true → ∃ rep at', v.report = some rep ∧ rep.success = some at') {rs : List IpCheck}
    (hrs : rs.map IpCheck.outcome = v.checks) : (st.visited v rs).Agreeing := by
  have hinserted : rs.foldl insert st = ⟨(rs.foldl insert st).checks, st.row⟩ := by
    rw [← foldl_insert_row st rs]
  have hreported := report_agreeing h hfits hok (known_perm hrs)
  have hd' : Descending (v.report.elim (rs.foldl insert st) (rs.foldl insert st).report).checks := by
    cases v.report with
    | none => exact hd.foldl_insert rs
    | some rep => exact hd.foldl_insert rs
  rw [← hinserted] at hreported
  unfold visited
  dsimp only
  split
  · exact hreported.prune hd'
  · exact hreported

end Standing

end Gwsdb.Store

namespace Gwsdb.Web

open Gwsdb.Store
open IsoTime (isoText)
open Transition (run Meets)

/-! ## Runs -/

/-- A reachable check of a batch is reported as a success. -/
theorem batchReport_success {rows : List CheckRow} {ip : String} {row : CheckRow} (h : row ∈ rowsOf rows ip) (hok : row.ok = true)
    (gate : Bool) : ∃ rep at', batchReport gate rows ip = some rep ∧ rep.success = some at' := by
  obtain ⟨s, hs, hsok⟩ := exists_ok_keptRows h hok
  have hunique : uniqueOf (keptRows (rowsOf rows ip)) ≠ none := by
    intro hnone
    rw [uniqueOf_eq_none.1 hnone] at hs
    cases hs
  obtain ⟨u, hu⟩ := Option.ne_none_iff_exists'.1 hunique
  obtain ⟨success, hsuccess⟩ := Option.ne_none_iff_exists'.1 ((isUnique _ hu).success_of_ok s hs hsok)
  refine ⟨⟨some success.checkedAt.text, u.latest.checkedAt.text, u.latest.ok⟩, success.checkedAt.text, ?_, rfl⟩
  rw [batchReport, hu, Option.bind_some, hsuccess]
  rfl

/-- A reachable check that a task brings is reported as a success. -/
theorem visit_success (t : Task) (db : Database) (ip : String) :
    ∀ x ∈ (t.visit db ip).checks, x.1 = true → ∃ rep at', (t.visit db ip).report = some rep ∧ rep.success = some at' := by
  intro x hx hok
  unfold Task.visit at hx ⊢
  cases hbrings : t.brings with
  | rows insertAt poolAt rows pruned =>
    rw [hbrings] at hx
    dsimp only at hx ⊢
    split at hx
    · obtain ⟨row, hrow, rfl⟩ := List.mem_map.1 hx
      exact batchReport_success hrow hok _
    · cases hx
  | check r =>
    rw [hbrings] at hx
    dsimp only at hx ⊢
    split at hx
    · rename_i hlets
      rw [if_pos hlets]
      rw [List.mem_singleton.1 hx] at hok
      dsimp only at hok
      exact ⟨_, r.checkedAt.text, rfl, by rw [checkReport, hok, if_pos rfl]⟩
    · cases hx
  | prune ips =>
    rw [hbrings] at hx
    cases hx
  | nothing =>
    rw [hbrings] at hx
    cases hx

/-- What the pool view computed from the checks of an IP. -/
structure Summarises (row : PoolRow) (checks : List IpCheck) : Prop where
  latest : ∃ newest, checks.head? = some newest ∧ row.lastCheckedAt = some newest.checkedAt ∧ row.lastCheckOk = some newest.ok
  seen : ∃ seen, checks.find? (·.ok) = some seen ∧ row.lastSeen = some seen.checkedAt

/-- The pool agrees with the history. -/
def PoolAgrees (db : Database) : Prop := ∀ ip row, db.pool.get? ip = some row → Summarises row (db.checks.newestFirst ip)

/-- The request fits the history of each IP. -/
def FitsHistory (s : Store.Site) (t : Task) : Prop := ∀ ip, (s.db.standing ip).Fits (t.visit s.db ip)

/-- A row's summary agrees with the checks when the row summarises them. -/
theorem summarises_iff {row : PoolRow} {checks : List IpCheck} (hd : Descending checks) :
    row.summary.Agrees checks ↔ Summarises row checks := by
  constructor
  · rintro ⟨⟨x, hx, hat, hlatest⟩, ⟨y, hy, hseen⟩⟩
    obtain ⟨newest, hhead, rfl⟩ := hd.newest_iff.1 hx
    obtain ⟨seen, hfind, rfl⟩ := hd.newest_ok_iff.1 hy
    exact ⟨⟨newest, hhead, hat, hlatest⟩, ⟨seen, hfind, hseen⟩⟩
  · rintro ⟨⟨newest, hhead, hat, hlatest⟩, ⟨seen, hfind, hseen⟩⟩
    exact ⟨⟨_, hd.newest_iff.2 ⟨newest, hhead, rfl⟩, hat, hlatest⟩, ⟨_, hd.newest_ok_iff.2 ⟨seen, hfind, rfl⟩, hseen⟩⟩

/-- The pool agrees with the history when every standing does. -/
theorem poolAgrees_iff {db : Database} : PoolAgrees db ↔ ∀ ip, (db.standing ip).Agreeing := by
  constructor
  · intro h ip row hrow
    obtain ⟨row', hrow', rfl⟩ := Option.map_eq_some_iff.1 hrow
    exact (summarises_iff (db.standing_descending ip)).2 (h ip row' hrow')
  · intro h ip row hrow
    refine (summarises_iff (db.standing_descending ip)).1 (h ip row.summary ?_)
    rw [Database.standing, hrow]
    rfl

/-- In every run of requests that complete and fit the history, the pool agrees with the history. -/
theorem pool_agrees (tasks : List Task) (s : Store.Site) (hr : run complete emptySite tasks = some s)
    (hfits : Meets complete FitsHistory emptySite tasks) : PoolAgrees s.db := by
  refine poolAgrees_iff.2 (Transition.invariant_of_meets (I := fun s => ∀ ip, (s.db.standing ip).Agreeing) ?_ hr hfits ?_)
  · intro s t s' h hfits hs ip
    obtain ⟨rs, hrs, hstanding⟩ := complete_visits h ip
    rw [hstanding]
    exact Standing.visited_agreeing (s.db.standing_descending ip) (hs ip) (hfits ip) (visit_success t s.db ip) hrs
  · intro ip row hrow
    cases hrow

/-- A check of one IP does nothing to another. -/
theorem visit_reachedAt {n : Int} {db : Database} {ip : String} (h : ip ≠ "8.8.8.8") :
    ((reachedAt n).visit db ip).checks = [] ∧ ((reachedAt n).visit db ip).report = none := by
  have hbrings : (reachedAt n).brings = .check ⟨"8.8.8.8", true, some 10, none, none, some (n * 1000), .text "SNI"⟩ := by
    have hnormal : normalize "8.8.8.8" = some "8.8.8.8" := by decide +kernel
    simp [reachedAt, Task.brings, readResult, hnormal]
  rw [Task.visit, hbrings]
  dsimp only
  rw [if_neg fun hand => h hand.1]
  exact ⟨rfl, rfl⟩

/-- Two checks in order leave the pool in agreement. -/
theorem pool_agrees_in_order : ∃ s, run complete emptySite [reachedAt 1, reachedAt 2] = some s ∧ PoolAgrees s.db := by
  obtain ⟨s₁, s₂, h₁, h₂, hfits₁, hfits₂⟩ : ∃ s₁ s₂, complete emptySite (reachedAt 1) = some s₁ ∧
    complete s₁ (reachedAt 2) = some s₂ ∧
      (emptySite.db.standing "8.8.8.8").Fits ((reachedAt 1).visit emptySite.db "8.8.8.8") ∧
        (s₁.db.standing "8.8.8.8").Fits ((reachedAt 2).visit s₁.db "8.8.8.8") :=
    ⟨_, _, rfl, rfl, by decide +kernel, by decide +kernel⟩
  have hfits : ∀ (s : Store.Site) (n : Int), (s.db.standing "8.8.8.8").Fits ((reachedAt n).visit s.db "8.8.8.8") →
      FitsHistory s (reachedAt n) := by
    intro s n h ip
    by_cases hip : ip = "8.8.8.8"
    · rw [hip]
      exact h
    · exact Standing.fits_of_nothing (visit_reachedAt hip).1 (visit_reachedAt hip).2
  have hrun : run complete emptySite [reachedAt 1, reachedAt 2] = some s₂ :=
    Transition.run_cons.2 ⟨s₁, h₁, Transition.run_cons.2 ⟨s₂, h₂, rfl⟩⟩
  exact ⟨s₂, hrun, pool_agrees _ s₂ hrun (Meets.cons h₁ (hfits _ 1 hfits₁) (Meets.cons h₂ (hfits _ 2 hfits₂) trivial))⟩

/-! ## A late check -/

/-- A check dated before the newest one becomes the latest check and the last success of the pool row. -/
theorem late_check_taken_for_latest : ¬∀ tasks s, run complete emptySite tasks = some s → PoolAgrees s.db := by
  intro h
  obtain ⟨s, hs, hlatest, hnewest⟩ : ∃ s, run complete emptySite [reachedAt 2, reachedAt 1] = some s ∧
      (s.db.pool.get? "8.8.8.8").map PoolRow.lastCheckedAt = some (some (isoText 1000)) ∧
        (s.db.checks.newestFirst "8.8.8.8").head?.map (·.checkedAt) = some (isoText 2000) :=
    ⟨_, rfl, by decide +kernel, by decide +kernel⟩
  obtain ⟨row, hrow, hat⟩ := Option.map_eq_some_iff.1 hlatest
  obtain ⟨newest, hhead, hagrees, -⟩ := (h _ s hs "8.8.8.8" row hrow).latest
  rw [hhead, Option.map_some, Option.some.injEq] at hnewest
  rw [hat, Option.some.injEq, hnewest] at hagrees
  exact absurd hagrees (by decide +kernel)

end Gwsdb.Web
