import Gwsdb.Lemmas.Ingest
import Gwsdb.Lemmas.IpAddr
import Gwsdb.Lib.Ranked
import Gwsdb.Store.PtrRefresh

/-!
# Whether the PTR refresh goes round

A pass queries the IPs that were never checked, then those checked longest ago. An IP with a definitive answer goes to the end of
that order, one without stays where it is. So the passes go round as long as a pass that leaves due IPs out queries none that an
earlier one got no answer for (`round_robin`); five hundred IPs that are never answered keep all others out (`unanswered_first`).
-/

namespace Gwsdb.Store

open Keyed (Table)
open Interleave (Prog)
open Transition (run Meets)

/-! ## The statement -/

/-- No pass queries an IP that an earlier one queried while an IP that was due at that one has been left out by all. -/
def RoundRobin (log : List PassLog) : Prop :=
  ∀ before earlier between later after, log = before ++ earlier :: (between ++ later :: after) →
    ∀ x ∈ earlier.queried, x ∈ later.queried →
      ∀ y ∈ earlier.due, ∃ pass ∈ before ++ earlier :: (between ++ [later]), y ∈ pass.queried

/-- No more IPs are due than a pass queries, or every due one that an earlier pass queried got a
definitive answer then or since. -/
def Steady (s : Refresh) (p : Pass) : Prop :=
  (s.site.db.dueIPs p.now).length ≤ BATCH_LIMIT ∨
    ∀ pass ∈ s.log, ∀ x ∈ pass.queried, x ∈ s.site.db.dueIPs p.now → ∃ pass' ∈ s.log, pass.now ≤ pass'.now ∧ x ∈ pass'.answered

/-! ## Times as texts -/

/-- datetime reads an instant of a four digit year, and writes its date and its time with a space between them. -/
theorem datetime_eq_some {t : Int} {k : String} (h : datetime t = some k) :
    IsoTime.FourDigitYear t ∧ k = String.ofList (IsoTime.dateChars t ++ ' ' :: IsoTime.timeChars t) := by
  unfold datetime at h
  split at h
  · cases h
    exact ⟨‹_›, rfl⟩
  · cases h

/-- A cutoff is before the text of any instant from its clock reading on. -/
theorem ptrCutoff_lt {now t : Int} {k : String} (h : ptrCutoff now = some k) (hle : now ≤ t) (ht : IsoTime.FourDigitYear t) :
    k < IsoTime.isoText t := by
  obtain ⟨hyear, rfl⟩ := datetime_eq_some h
  have hday : IsoTime.day (now - 30 * 86400000) < IsoTime.day t := by
    unfold IsoTime.day
    omega
  rw [IsoTime.isoText, String.lt_iff_toList_lt, String.toList_ofList, String.toList_ofList, IsoTime.isoChars_eq]
  exact IsoTime.dateChars_append_lt hyear ht hday _ _

/-- A later clock reading has no earlier cutoff. -/
theorem ptrCutoff_mono {now now' : Int} {k : String} (h : ptrCutoff now = some k) (hle : now ≤ now')
    (hyear : IsoTime.yearFromTime now' ≤ 9999) : ∃ k', ptrCutoff now' = some k' ∧ k ≤ k' := by
  obtain ⟨hk, rfl⟩ := datetime_eq_some h
  have hlater : IsoTime.FourDigitYear (now' - 30 * 86400000) :=
    ⟨hk.1.trans (IsoTime.yearFromTime_mono (by omega)), (IsoTime.yearFromTime_mono (by omega)).trans hyear⟩
  refine ⟨_, if_pos hlater, ?_⟩
  rw [String.le_iff_toList_le, String.toList_ofList, String.toList_ofList]
  generalize ht : now - 30 * 86400000 = t at *
  generalize hu : now' - 30 * 86400000 = u at *
  have htu : t ≤ u := by omega
  have hdays : IsoTime.day t < IsoTime.day u ∨
      IsoTime.day t = IsoTime.day u ∧ IsoTime.timeInDay t / 1000 ≤ IsoTime.timeInDay u / 1000 := by
    unfold IsoTime.day IsoTime.timeInDay
    omega
  rcases hdays with hday | ⟨hday, hsecond⟩
  · exact (IsoTime.dateChars_append_lt hk hlater hday _ _).le
  rw [IsoTime.dateChars_congr hday]
  rcases lt_or_eq_of_le hsecond with hlt | heq
  · refine le_of_lt ((Digits.append_lt_append_iff rfl).2 (Or.inr ⟨rfl, ?_⟩))
    exact List.cons_lt_cons_iff.2 (Or.inr ⟨rfl, IsoTime.timeChars_lt hlt⟩)
  · rw [IsoTime.timeChars_congr heq]

/-! ## Selection -/

/-- The row is due: never checked, or checked before the cutoff. -/
def PoolRow.isDue (row : PoolRow) (cutoff : Option String) : Prop := row.ptrCheckedAt = none ∨ row.stale cutoff = true

/-- A row is stale when its time text is less than the cut-off's. -/
theorem stale_iff {row : PoolRow} {cutoff : Option String} :
    row.stale cutoff = true ↔ ∃ t k, row.ptrCheckedAt = some t ∧ cutoff = some k ∧ t < k := by
  unfold PoolRow.stale
  simp [Option.any_eq_true]

namespace Database

variable {db : Database} {ip : String}

/-- The unchecked IPs are those of rows without a check time. -/
theorem mem_uncheckedIPs : ip ∈ db.uncheckedIPs ↔ ∃ row, db.pool.get? ip = some row ∧ row.ptrCheckedAt = none := by
  unfold uncheckedIPs
  simp only [List.mem_map, List.mem_filter, Option.isNone_iff_eq_none, Prod.exists, Table.mem_entries_iff]
  constructor
  · rintro ⟨k, row, ⟨hget, hnone⟩, rfl⟩
    exact ⟨row, hget, hnone⟩
  · rintro ⟨row, hget, hnone⟩
    exact ⟨ip, row, ⟨hget, hnone⟩, rfl⟩

/-- The stale IPs are those of stale rows. -/
theorem mem_staleIPs {cutoff : Option String} :
    ip ∈ db.staleIPs cutoff ↔ ∃ row, db.pool.get? ip = some row ∧ row.stale cutoff = true := by
  unfold staleIPs
  simp only [List.mem_map, List.mem_insertionSort, List.mem_filter, Prod.exists, Table.mem_entries_iff]
  constructor
  · rintro ⟨k, row, ⟨hget, hstale⟩, rfl⟩
    exact ⟨row, hget, hstale⟩
  · rintro ⟨row, hget, hstale⟩
    exact ⟨ip, row, ⟨hget, hstale⟩, rfl⟩

/-- The due IPs are those of due rows. -/
theorem mem_dueIPs {now : Int} : ip ∈ db.dueIPs now ↔ ∃ row, db.pool.get? ip = some row ∧ row.isDue (ptrCutoff now) := by
  unfold dueIPs PoolRow.isDue
  rw [List.mem_append, mem_uncheckedIPs, mem_staleIPs]
  constructor
  · rintro (⟨row, hget, h⟩ | ⟨row, hget, h⟩)
    · exact ⟨row, hget, Or.inl h⟩
    · exact ⟨row, hget, Or.inr h⟩
  · rintro ⟨row, hget, h | h⟩
    · exact Or.inl ⟨row, hget, h⟩
    · exact Or.inr ⟨row, hget, h⟩

/-- When all the due IPs fit, all of them are selected. -/
theorem pending_of_short {now : Int} {limit : Nat} (h : (db.dueIPs now).length ≤ limit) :
    db.pendingIPsForPTRRefresh now limit = db.dueIPs now := by
  unfold dueIPs at h ⊢
  rw [List.length_append] at h
  unfold pendingIPsForPTRRefresh
  have hunchecked : db.uncheckedIPs.take limit = db.uncheckedIPs := List.take_of_length_le (by omega)
  have hstale : (db.staleIPs (ptrCutoff now)).take (limit - db.uncheckedIPs.length) = db.staleIPs (ptrCutoff now) :=
    List.take_of_length_le (by omega)
  simp only [hunchecked, hstale]
  split
  · rw [List.eq_nil_of_length_eq_zero (show (db.staleIPs (ptrCutoff now)).length = 0 by omega), List.append_nil]
  · rfl

/-- When an IP that was checked is selected, every IP that was not, or that was checked before it, is selected too. -/
theorem pending_older {now : Int} {limit : Nat} {x y : String}
    (hx : x ∈ db.pendingIPsForPTRRefresh now limit) {rowx rowy : PoolRow}
    (hrowx : db.pool.get? x = some rowx) {t : String} (ht : rowx.ptrCheckedAt = some t) (hrowy : db.pool.get? y = some rowy)
    (hdue : rowy.isDue (ptrCutoff now)) (holder : ∀ t', rowy.ptrCheckedAt = some t' → t' < t) :
    y ∈ db.pendingIPsForPTRRefresh now limit := by
  have hchecked : x ∉ db.uncheckedIPs := by
    intro hmem
    obtain ⟨row, hrow, hnone⟩ := mem_uncheckedIPs.1 hmem
    rw [hrowx] at hrow
    cases hrow
    rw [ht] at hnone
    cases hnone
  unfold pendingIPsForPTRRefresh at hx ⊢
  simp only at hx ⊢
  split at hx
  · exact absurd (List.mem_of_mem_take hx) hchecked
  rename_i hfits
  rw [if_neg hfits]
  have hall : db.uncheckedIPs.take limit = db.uncheckedIPs := by
    rw [List.length_take] at hfits
    exact List.take_of_length_le (by omega)
  rw [hall] at hx ⊢
  rcases hdue with hnone | hstale
  · exact List.mem_append_left _ (mem_uncheckedIPs.2 ⟨rowy, hrowy, hnone⟩)
  refine List.mem_append_right _ ?_
  have hx' := (List.mem_append.1 hx).resolve_left hchecked
  obtain ⟨t', k, ht', hk, -⟩ := stale_iff.1 hstale
  unfold staleIPs at hx' ⊢
  rw [← List.map_take] at hx' ⊢
  obtain ⟨⟨x', r⟩, hxin, rfl⟩ := List.mem_map.1 hx'
  have hr : r = rowx := by
    have hin := List.mem_of_mem_take hxin
    rw [List.mem_insertionSort, List.mem_filter] at hin
    have hget := (Table.mem_entries_iff _ _ _).1 hin.1
    rw [hrowx] at hget
    cases hget
    rfl
  subst hr
  refine List.mem_map.2 ⟨(y, rowy), ?_, rfl⟩
  refine Ranked.mem_take_of_key_lt (fun e : String × PoolRow => e.2.ptrCheckedAt.getD "") ?_ hxin ?_ ?_
  · exact List.pairwise_insertionSort _ _
  · rw [List.mem_insertionSort, List.mem_filter]
    exact ⟨(Table.mem_entries_iff _ _ _).2 hrowy, hstale⟩
  · simp only [ht, ht', Option.getD_some]
    exact holder t' ht'

/-- A pass lists due IPs only. -/
theorem pending_subset {now : Int} {limit : Nat} {x : String} (hx : x ∈ db.pendingIPsForPTRRefresh now limit) :
    x ∈ db.dueIPs now := by
  unfold pendingIPsForPTRRefresh at hx
  simp only at hx
  unfold dueIPs
  split at hx
  · exact List.mem_append_left _ (List.mem_of_mem_take hx)
  · rcases List.mem_append.1 hx with hx | hx
    · exact List.mem_append_left _ (List.mem_of_mem_take hx)
    · exact List.mem_append_right _ (List.mem_of_mem_take hx)

end Database

/-! ## What a pass writes -/

/-- Statements that save PTR results of one time: a row of the pool that is touched gets that time, the others keep theirs. -/
theorem after_touches {stmts : List Stmt} {time ip : String}
    (h : ∀ stmt ∈ stmts, stmt = .bumpPoolRevision ∨ (∃ k row, stmt = .savePTR k row) ∨ ∃ k, stmt = .touchPTR k time)
    (db : Database) :
    ((db.after stmts).pool.get? ip).map (·.ptrCheckedAt) =
      if .touchPTR ip time ∈ stmts then (db.pool.get? ip).map fun _ => some time else (db.pool.get? ip).map (·.ptrCheckedAt) := by
  induction stmts generalizing db with
  | nil => simp [Database.after]
  | cons stmt stmts ih =>
    have hrest := ih (fun s hs => h s (List.mem_cons_of_mem _ hs)) (db.exec stmt).2
    rw [Database.after_cons, hrest]
    rcases h stmt List.mem_cons_self with rfl | ⟨k, row, rfl⟩ | ⟨k, rfl⟩
    · simp [Database.exec]
    · simp [Database.exec]
    · rw [Database.exec_writes db (rfl : (Stmt.touchPTR k time).poolIp? = some k), Database.get?_writePool]
      by_cases hk : ip = k
      · subst hk
        cases db.pool.get? ip <;> simp [Database.rewrite]
      · simp [hk]

/-- A pass gives the IPs it saves the time of the pass, and leaves the times of the others. -/
theorem ptrCheckedAt_savePTRBatch {entries : List PTRCacheEntry} {t : Int} (h : ∀ e ∈ entries, e.checkedAt = some t) (s : Site)
    (ip : String) : ((((savePTRBatch entries).run serve s).2.db.pool.get? ip).map (·.ptrCheckedAt)) =
      if ip ∈ entries.map (·.ip) then (s.db.pool.get? ip).map fun _ => some (IsoTime.isoText t)
      else (s.db.pool.get? ip).map (·.ptrCheckedAt) := by
  have hstmts : ∀ e ∈ entries, ∃ row, ptrStmts e = .ok [.savePTR e.ip row, .touchPTR e.ip (IsoTime.isoText t)] := by
    intro e he
    refine ⟨⟨some (joinStrings e.ptrHostnames), e.lookupOk, e.ttlSeconds, IsoTime.isoText t⟩, ?_⟩
    unfold ptrStmts
    rw [h e he]
    rfl
  have hbind : ∀ e ∈ entries, ∃ stmts, ptrStmts e = .ok stmts := fun e he => (hstmts e he).elim fun _ hrow => ⟨_, hrow⟩
  obtain ⟨s', hrun⟩ : ∃ s', (savePTRBatch entries).run serve s = (.ok (), s') := run_inChunks_of_bind (by decide) hbind s
  obtain ⟨bounds, hbounds, heq⟩ := run_inChunks_ok hrun
  have hflat := forall₂_flatten hbounds
  rw [Chunks.chunks_flatten (by decide)] at hflat
  have hbound : ∀ stmts ∈ bounds.flatten, ∃ e ∈ entries, ∃ row,
      stmts = [.savePTR e.ip row, .touchPTR e.ip (IsoTime.isoText t)] := by
    intro stmts hm
    obtain ⟨e, he, hstmt⟩ := exists_of_forall₂_mem hflat hm
    obtain ⟨row, hrow⟩ := hstmts e he
    rw [hrow] at hstmt
    cases hstmt
    exact ⟨e, he, row, rfl⟩
  have hall : ∀ stmt ∈ bounds.flatMap (fun statements => .bumpPoolRevision :: statements.flatten),
      stmt = .bumpPoolRevision ∨ (∃ k row, stmt = .savePTR k row) ∨ ∃ k, stmt = .touchPTR k (IsoTime.isoText t) := by
    intro stmt hm
    obtain ⟨bound, hb, hm⟩ := List.mem_flatMap.1 hm
    rcases List.mem_cons.1 hm with rfl | hm
    · exact Or.inl rfl
    obtain ⟨stmts, hin, hm⟩ := List.mem_flatten.1 hm
    obtain ⟨e, -, row, rfl⟩ := hbound stmts (List.mem_flatten.2 ⟨bound, hb, hin⟩)
    simp only [List.mem_cons, List.not_mem_nil, or_false] at hm
    rcases hm with rfl | rfl
    · exact Or.inr (Or.inl ⟨_, _, rfl⟩)
    · exact Or.inr (Or.inr ⟨_, rfl⟩)
  have htouch : Stmt.touchPTR ip (IsoTime.isoText t) ∈
    bounds.flatMap (fun statements => .bumpPoolRevision :: statements.flatten) ↔
      ip ∈ entries.map (·.ip) := by
    constructor
    · intro hm
      obtain ⟨bound, hb, hm⟩ := List.mem_flatMap.1 hm
      obtain ⟨stmts, hin, hm⟩ := List.mem_flatten.1 ((List.mem_cons.1 hm).resolve_left nofun)
      obtain ⟨e, he, row, rfl⟩ := hbound stmts (List.mem_flatten.2 ⟨bound, hb, hin⟩)
      simp only [List.mem_cons, reduceCtorEq, false_or, List.not_mem_nil, or_false, Stmt.touchPTR.injEq, and_true] at hm
      exact List.mem_map.2 ⟨e, he, hm.symm⟩
    · intro hm
      obtain ⟨e, he, rfl⟩ := List.mem_map.1 hm
      obtain ⟨row, hrow⟩ := hstmts e he
      obtain ⟨stmts, hin, hstmt⟩ := exists_of_forall₂_mem hflat.flip he
      rw [hrow] at hstmt
      cases hstmt
      obtain ⟨bound, hb, hin⟩ := List.mem_flatten.1 hin
      refine List.mem_flatMap.2 ⟨bound, hb, List.mem_cons_of_mem _ (List.mem_flatten.2 ⟨_, hin, ?_⟩)⟩
      simp
  rw [hrun, heq]
  exact (after_touches hall s.db).trans (by simp only [htouch])

/-- A pass goes through what the pool lists as pending. -/
theorem runPTRRefresh_fst (p : Pass) (s : Site) : (runPTRRefresh p s).1 = s.db.pendingIPsForPTRRefresh p.now BATCH_LIMIT := by
  unfold runPTRRefresh
  simp only
  split
  · exact (List.eq_nil_of_length_eq_zero ‹_›).symm
  · rfl

/-- A pass saves answers for IPs of its list only. -/
theorem mem_saved {p : Pass} {ips : List String} {ip : String} (h : ip ∈ (p.saved ips).map (·.ip)) : ip ∈ ips := by
  unfold Pass.saved at h
  simp only [List.map_map, List.mem_map, List.mem_filter, Bool.and_eq_true, decide_eq_true_eq, Function.comp_apply] at h
  obtain ⟨e, ⟨-, hmem, -⟩, rfl⟩ := h
  exact hmem

/-- The times of the pool after a pass. -/
theorem ptrCheckedAt_runPTRRefresh (p : Pass) (s : Site) (ip : String) :
    (((runPTRRefresh p s).2.db.pool.get? ip).map (·.ptrCheckedAt)) =
      if ip ∈ (p.saved (runPTRRefresh p s).1).map (·.ip) then (s.db.pool.get? ip).map fun _ => some (IsoTime.isoText p.checkedAt)
      else (s.db.pool.get? ip).map (·.ptrCheckedAt) := by
  have hdate : ∀ ips, ∀ e ∈ p.saved ips, e.checkedAt = some p.checkedAt := by
    intro ips e he
    obtain ⟨_, -, rfl⟩ := List.mem_map.1 he
    rfl
  unfold runPTRRefresh
  simp only
  split
  · have hnone : ip ∉ (p.saved []).map (·.ip) := fun hm => nomatch mem_saved hm
    rw [if_neg hnone]
  · exact ptrCheckedAt_savePTRBatch (hdate _) s ip

/-! ## Going round -/

/-- After the passes so far: an IP they got an answer for has a time after their cutoffs, and one that was due and has been
left out by all is due still. -/
structure Rounds (s : Refresh) : Prop where
  clock : ∀ pass ∈ s.log, pass.now ≤ s.clock
  answered : ∀ pass ∈ s.log, ∀ x ∈ pass.answered, ∀ row, s.site.db.pool.get? x = some row →
    ∃ t, row.ptrCheckedAt = some t ∧ ∀ k, ptrCutoff pass.now = some k → k < t
  leftOut : ∀ pass ∈ s.log, ∀ y ∈ pass.due, (∀ pass' ∈ s.log, y ∉ pass'.queried) →
    ∃ row, s.site.db.pool.get? y = some row ∧ row.isDue (ptrCutoff pass.now)
  round : RoundRobin s.log

/-- One more pass goes round with those before it when it queries what each of them left out, or none of what they queried. -/
theorem RoundRobin.concat {log : List PassLog} (h : RoundRobin log) {last : PassLog}
    (hlast : ∀ earlier ∈ log, ∀ x ∈ earlier.queried, x ∈ last.queried →
      ∀ y ∈ earlier.due, ∃ pass ∈ log ++ [last], y ∈ pass.queried) :
    RoundRobin (log ++ [last]) := by
  intro before earlier between later after heq x hx hx' y hy
  rcases List.eq_nil_or_concat after with rfl | ⟨init, final, rfl⟩
  · have hsplit : log ++ [last] = (before ++ earlier :: between) ++ [later] := by simpa using heq
    obtain ⟨rfl, hlater⟩ := List.append_inj' hsplit rfl
    cases hlater
    have hall := hlast earlier (by simp) x hx hx' y hy
    simpa using hall
  · have hsplit : log ++ [last] = (before ++ earlier :: (between ++ later :: init)) ++ [final] := by simpa using heq
    obtain ⟨hlog, -⟩ := List.append_inj' hsplit rfl
    exact h before earlier between later init hlog x hx hx' y hy

/-- A due row stays due. -/
theorem isDue_mono {row : PoolRow} {now now' : Int} (hle : now ≤ now') (hyear : IsoTime.yearFromTime now' ≤ 9999)
    (h : row.isDue (ptrCutoff now)) : row.isDue (ptrCutoff now') := by
  rcases h with h | h
  · exact Or.inl h
  · obtain ⟨t, k, ht, hk, hlt⟩ := stale_iff.1 h
    obtain ⟨k', hk', hle'⟩ := ptrCutoff_mono hk hle hyear
    exact Or.inr (stale_iff.2 ⟨t, k', ht, hk', lt_of_lt_of_le hlt hle'⟩)

/-- The row of an IP with the same time is due when it was. -/
theorem isDue_congr {row row' : PoolRow} (h : row'.ptrCheckedAt = row.ptrCheckedAt)
    {cutoff : Option String} (hdue : row.isDue cutoff) :
    row'.isDue cutoff := by
  unfold PoolRow.isDue PoolRow.stale at *
  rwa [h]

/-- An IP that an earlier pass got an answer for is selected only when every IP that was due at that pass is selected
or was before. The other IP's time is before the cut-off of the earlier pass, its own is after it. -/
theorem selects_leftOut {s : Refresh} (hs : Rounds s) {p : Pass} (hsteady : Steady s p) (hclock : s.clock ≤ p.now)
    {earlier : PassLog} (hearlier : earlier ∈ s.log) {x : String} (hx : x ∈ earlier.queried)
    (hx' : x ∈ s.site.db.pendingIPsForPTRRefresh p.now BATCH_LIMIT) {y : String} (hy : y ∈ earlier.due)
    (hnone : ∀ pass ∈ s.log, y ∉ pass.queried) : y ∈ s.site.db.pendingIPsForPTRRefresh p.now BATCH_LIMIT := by
  obtain ⟨rowy, hrowy, hdue⟩ := hs.leftOut earlier hearlier y hy hnone
  have hyear : IsoTime.yearFromTime p.now ≤ 9999 := (IsoTime.yearFromTime_mono p.ordered).trans p.year.2
  have hdue' := isDue_mono ((hs.clock earlier hearlier).trans hclock) hyear hdue
  rcases hsteady with hshort | hanswered
  · rw [Database.pending_of_short hshort]
    exact Database.mem_dueIPs.2 ⟨rowy, hrowy, hdue'⟩
  · have hduex := Database.pending_subset hx'
    obtain ⟨rowx, hrowx, -⟩ := Database.mem_dueIPs.1 hduex
    obtain ⟨since, hsince, hle, hanswer⟩ := hanswered earlier hearlier x hx hduex
    obtain ⟨t, ht, hafter⟩ := hs.answered since hsince x hanswer rowx hrowx
    refine Database.pending_older hx' hrowx ht hrowy hdue' fun t' ht' => ?_
    rcases hdue with hunchecked | hstale
    · rw [hunchecked] at ht'
      cases ht'
    · obtain ⟨t'', k, ht'', hk, hlt⟩ := stale_iff.1 hstale
      rw [ht''] at ht'
      cases ht'
      have hyear' : IsoTime.yearFromTime since.now ≤ 9999 :=
        (IsoTime.yearFromTime_mono ((hs.clock since hsince).trans hclock)).trans hyear
      obtain ⟨k', hk', hkk⟩ := ptrCutoff_mono hk hle hyear'
      exact hlt.trans (lt_of_le_of_lt hkk (hafter k' hk'))

/-- What a pass leaves of a row: its time is the pass's own, or the one it had. -/
theorem row_after_pass {p : Pass} {s : Site} {ip : String} {row : PoolRow}
    (h : (runPTRRefresh p s).2.db.pool.get? ip = some row) :
    ∃ old, s.db.pool.get? ip = some old ∧
      (row.ptrCheckedAt = some (IsoTime.isoText p.checkedAt) ∨
        ip ∉ (p.saved (runPTRRefresh p s).1).map (·.ip) ∧ row.ptrCheckedAt = old.ptrCheckedAt) := by
  have htime := ptrCheckedAt_runPTRRefresh p s ip
  rw [h] at htime
  cases hold : s.db.pool.get? ip with
  | none =>
    rw [hold] at htime
    split at htime <;> cases htime
  | some old =>
    rw [hold] at htime
    refine ⟨old, rfl, ?_⟩
    split at htime
    · exact Or.inl (Option.some.inj htime)
    · exact Or.inr ⟨‹_›, Option.some.inj htime⟩

/-- A steady pass goes round with those before it. An IP the pass did not query keeps its time. -/
theorem rounds_step (s : Refresh) (p : Pass) (s' : Refresh) (h : nextPass s p = some s') (hsteady : Steady s p) (hs : Rounds s) :
    Rounds s' := by
  unfold nextPass at h
  simp only [Option.ite_none_right_eq_some, Option.some.injEq] at h
  obtain ⟨hclock, rfl⟩ := h
  have hqueried := runPTRRefresh_fst p s.site
  refine ⟨?_, ?_, ?_, ?_⟩
  · intro pass hpass
    rcases List.mem_append.1 hpass with hpass | hpass
    · exact (hs.clock pass hpass).trans (hclock.trans p.ordered)
    · rw [List.mem_singleton.1 hpass]
      exact p.ordered
  · intro pass hpass x hx row hrow
    obtain ⟨old, hold, hnew | ⟨hnot, hsame⟩⟩ := row_after_pass hrow
    · refine ⟨_, hnew, fun k hk => ?_⟩
      rcases List.mem_append.1 hpass with hpass | hpass
      · exact ptrCutoff_lt hk ((hs.clock pass hpass).trans (hclock.trans p.ordered)) p.year
      · rw [List.mem_singleton.1 hpass] at hk
        exact ptrCutoff_lt hk p.ordered p.year
    · rcases List.mem_append.1 hpass with hpass | hpass
      · rw [hsame]
        exact hs.answered pass hpass x hx old hold
      · rw [List.mem_singleton.1 hpass] at hx
        exact absurd hx hnot
  · intro pass hpass y hy hnone
    have hnot : y ∉ (p.saved (runPTRRefresh p s.site).1).map (·.ip) := fun hm =>
      hnone _ (List.mem_append_right _ (List.mem_singleton_self _)) (mem_saved hm)
    have hkeep : ∀ row, s.site.db.pool.get? y = some row → row.isDue (ptrCutoff pass.now) →
        ∃ row', (runPTRRefresh p s.site).2.db.pool.get? y = some row' ∧ row'.isDue (ptrCutoff pass.now) := by
      intro row hrow hdue
      have htime := ptrCheckedAt_runPTRRefresh p s.site y
      rw [if_neg hnot, hrow, Option.map_some, Option.map_eq_some_iff] at htime
      obtain ⟨row', hrow', hsame⟩ := htime
      exact ⟨row', hrow', isDue_congr hsame hdue⟩
    rcases List.mem_append.1 hpass with hpass | hpass
    · obtain ⟨row, hrow, hdue⟩ := hs.leftOut pass hpass y hy fun pass' hpass' => hnone pass' (List.mem_append_left _ hpass')
      exact hkeep row hrow hdue
    · rw [List.mem_singleton.1 hpass] at hy ⊢
      obtain ⟨row, hrow, hdue⟩ := Database.mem_dueIPs.1 hy
      rw [List.mem_singleton.1 hpass] at hkeep
      exact hkeep row hrow hdue
  · refine hs.round.concat fun earlier hearlier x hx hx' y hy => ?_
    by_cases hbefore : ∃ pass ∈ s.log, y ∈ pass.queried
    · obtain ⟨pass, hpass, hmem⟩ := hbefore
      exact ⟨pass, List.mem_append_left _ hpass, hmem⟩
    · push Not at hbefore
      refine ⟨_, List.mem_append_right _ (List.mem_singleton_self _), ?_⟩
      simp only [hqueried] at hx' ⊢
      exact selects_leftOut hs hsteady hclock hearlier hx hx' hy hbefore

/-- Passes that are all steady go round. -/
theorem round_robin {site : Site} {clock : Int} {ps : List Pass} {s : Refresh} (hr : run nextPass ⟨site, clock, []⟩ ps = some s)
    (hsteady : Meets nextPass Steady ⟨site, clock, []⟩ ps) : RoundRobin s.log := by
  have hstart : Rounds ⟨site, clock, []⟩ := by
    refine ⟨nofun, nofun, nofun, ?_⟩
    intro before earlier between later after heq
    simp at heq
  exact (Transition.invariant_of_meets rounds_step hr hsteady hstart).round

/-! ## Two passes -/

/-- A row of the pool as the first check of its IP leaves it. -/
def uncheckedRow : PoolRow :=
  ⟨false, some "SNI", some "2025-08-31T23:59:59.999Z", some "2025-08-31T23:59:59.999Z", some 12, 1,
    some "2025-08-31T23:59:59.999Z",
    some true, none, 1, 1⟩

/-- A pool of as many addresses, none of them checked. -/
def freshPool (n : Nat) : Table String PoolRow :=
  ⟨(List.range n).map fun i => (Net.address i, uncheckedRow), by
    rw [List.map_map]
    exact List.nodup_range.map Net.address_injective⟩

/-- Every row of the fresh pool is unchecked. -/
theorem eq_of_mem_freshPool {n : Nat} {e : String × PoolRow} (h : e ∈ (freshPool n).entries) : e.2 = uncheckedRow := by
  obtain ⟨i, -, rfl⟩ := List.mem_map.1 h
  rfl

/-- So is every row the fresh pool answers. -/
theorem get?_freshPool {n : Nat} {ip : String} {row : PoolRow} (h : (freshPool n).get? ip = some row) : row = uncheckedRow :=
  eq_of_mem_freshPool ((Table.mem_entries_iff _ _ _).2 h)

/-- A site with such a pool. -/
def freshSite (n : Nat) : Site where
  db :=
    { Database.empty with
      pool := freshPool n
      version := 1
      stamped := fun _ row h => by
        rw [get?_freshPool h]
        exact le_refl 1
      reset_le := Nat.zero_le 1 }
  edge := Table.empty
  totals := none

/-- A pass that gets no answer. -/
def silentPass (t : Int) (h : IsoTime.FourDigitYear t) : Pass := ⟨t, Table.empty, t, le_refl t, h⟩

/-- Every IP of the fresh site is unchecked. -/
theorem uncheckedIPs_freshSite (n : Nat) : (freshSite n).db.uncheckedIPs = (List.range n).map Net.address := by
  have hall : ((freshSite n).db.pool.entries.filter fun e => e.2.ptrCheckedAt.isNone) = (freshPool n).entries := by
    refine List.filter_eq_self.2 fun e he => ?_
    rw [eq_of_mem_freshPool he]
    rfl
  unfold Database.uncheckedIPs
  rw [hall, freshPool, List.map_map]
  rfl

/-- None of them is stale. -/
theorem staleIPs_freshSite (n : Nat) (cutoff : Option String) : (freshSite n).db.staleIPs cutoff = [] := by
  rw [List.eq_nil_iff_forall_not_mem]
  intro ip hip
  obtain ⟨row, hrow, hstale⟩ := Database.mem_staleIPs.1 hip
  obtain ⟨t, k, ht, -⟩ := stale_iff.1 hstale
  rw [get?_freshPool hrow] at ht
  cases ht

/-- Every IP of the fresh site is due. -/
theorem dueIPs_freshSite (n : Nat) (now : Int) : (freshSite n).db.dueIPs now = (List.range n).map Net.address := by
  unfold Database.dueIPs
  rw [uncheckedIPs_freshSite, staleIPs_freshSite, List.append_nil]

/-- A pass over the fresh site lists the first 500. -/
theorem pending_freshSite (n : Nat) (now : Int) :
    (freshSite n).db.pendingIPsForPTRRefresh now BATCH_LIMIT = ((List.range n).map Net.address).take BATCH_LIMIT := by
  unfold Database.pendingIPsForPTRRefresh
  rw [uncheckedIPs_freshSite, staleIPs_freshSite]
  simp

/-- A silent pass leaves the site as it is. -/
theorem runPTRRefresh_silentPass {t : Int} (h : IsoTime.FourDigitYear t) (s : Site) :
    (runPTRRefresh (silentPass t h) s).2 = s := by
  unfold runPTRRefresh
  simp only
  split <;> rfl

/-- What a silent pass over a fresh pool is logged as. -/
def silentLog (n : Nat) (t : Int) : PassLog :=
  ⟨t, (List.range n).map Net.address, ((List.range n).map Net.address).take BATCH_LIMIT, []⟩

/-- Every IP of the fresh site is due in a pass without answers. -/
theorem mem_due_silentLog {n i : Nat} (t : Int) (h : i < n) : Net.address i ∈ (silentLog n t).due :=
  List.mem_map_of_mem (List.mem_range.2 h)

/-- A pass without answers leaves the site as it was. -/
theorem nextPass_silentPass (n : Nat) {t : Int} (ht : IsoTime.FourDigitYear t) {clock : Int}
    (log : List PassLog) (hle : clock ≤ t) :
    nextPass ⟨freshSite n, clock, log⟩ (silentPass t ht) = some ⟨freshSite n, t, log ++ [silentLog n t]⟩ := by
  have hlog : (silentPass t ht).saved ((freshSite n).db.pendingIPsForPTRRefresh t BATCH_LIMIT) = [] := rfl
  unfold nextPass
  simp only [runPTRRefresh_silentPass, runPTRRefresh_fst]
  rw [if_pos (show clock ≤ (silentPass t ht).now from hle)]
  simp only [silentPass] at hlog ⊢
  rw [hlog, dueIPs_freshSite, pending_freshSite]
  rfl

/-- Two silent passes, a day apart. -/
theorem run_silentPass (n : Nat) {t u : Int} (ht : IsoTime.FourDigitYear t) (hu : IsoTime.FourDigitYear u) (htu : t ≤ u) :
    run nextPass ⟨freshSite n, t, []⟩ [silentPass t ht, silentPass u hu] =
        some ⟨freshSite n, u, [silentLog n t, silentLog n u]⟩ :=
  Transition.run_cons.2 ⟨_, nextPass_silentPass n ht [] (le_refl t),
    Transition.run_cons.2 ⟨_, nextPass_silentPass n hu [silentLog n t] htu, rfl⟩⟩

/-- The epoch lies in a four digit year. -/
theorem fourDigitYear_zero : IsoTime.FourDigitYear 0 := by decide

/-- So does the day after it. -/
theorem fourDigitYear_day : IsoTime.FourDigitYear 86400000 := by decide

/-- A pass that gets an answer for every address of a pool. -/
def answeredPass (n : Nat) (t : Int) (h : IsoTime.FourDigitYear t) : Pass where
  now := t
  answers :=
    ⟨(List.range n).map fun i => (Net.address i, ⟨3, [], 0⟩), by
      rw [List.map_map]
      exact List.nodup_range.map Net.address_injective⟩
  checkedAt := t
  ordered := le_refl t
  year := h

/-- A pass with answers saves one for every IP it lists. -/
theorem mem_saved_answeredPass {n i : Nat} (hi : i < n) {t : Int} (h : IsoTime.FourDigitYear t) {ips : List String}
    (hip : Net.address i ∈ ips) : Net.address i ∈ ((answeredPass n t h).saved ips).map (·.ip) := by
  unfold Pass.saved
  rw [List.map_map]
  refine List.mem_map.2 ⟨(Net.address i, ⟨3, [], 0⟩), List.mem_filter.2 ⟨?_, ?_⟩, rfl⟩
  · exact List.mem_map_of_mem (List.mem_range.2 hi)
  · simp only [hip, decide_true, Bool.true_and]
    rfl

/-- After a pass over a fresh pool that was answered, an address is unchecked exactly when the pass did not query it. -/
theorem unchecked_answeredPass {n i : Nat} (hi : i < n) {t : Int} (h : IsoTime.FourDigitYear t) :
    Net.address i ∈ (runPTRRefresh (answeredPass n t h) (freshSite n)).2.db.uncheckedIPs ↔ BATCH_LIMIT ≤ i := by
  have hqueried : Net.address i ∈ (runPTRRefresh (answeredPass n t h) (freshSite n)).1 ↔ i < BATCH_LIMIT := by
    rw [runPTRRefresh_fst, pending_freshSite, ← List.map_take, List.take_range,
      List.mem_map_of_injective Net.address_injective, List.mem_range]
    omega
  have hrow : (freshSite n).db.pool.get? (Net.address i) = some uncheckedRow :=
    (Table.mem_entries_iff _ _ _).1 (List.mem_map_of_mem (f := fun i => (Net.address i, uncheckedRow)) (List.mem_range.2 hi))
  have htime := ptrCheckedAt_runPTRRefresh (answeredPass n t h) (freshSite n) (Net.address i)
  rw [hrow] at htime
  rw [Database.mem_uncheckedIPs]
  split at htime
  · rename_i hsaved
    refine iff_of_false ?_ (not_le.2 (hqueried.1 (mem_saved hsaved)))
    rintro ⟨row, hget, hnone⟩
    rw [hget, Option.map_some, Option.map_some, hnone] at htime
    cases htime
  · rename_i hsaved
    obtain ⟨row, hget, hnone⟩ := Option.map_eq_some_iff.1 htime
    exact iff_of_true ⟨row, hget, hnone⟩ (not_lt.1 fun hlt => hsaved (mem_saved_answeredPass hi h (hqueried.2 hlt)))

/-- A row of the fresh site is that of one of its addresses. -/
theorem exists_of_get?_freshSite {n : Nat} {ip : String} {row : PoolRow} (h : (freshSite n).db.pool.get? ip = some row) :
    ∃ i < n, ip = Net.address i := by
  obtain ⟨i, hi, hentry⟩ := List.mem_map.1 ((Table.mem_entries_iff _ _ _).2 h)
  exact ⟨i, List.mem_range.1 hi, (congrArg Prod.fst hentry).symm⟩

/-- Of 501 addresses one is left unchecked. -/
theorem uncheckedIPs_answeredPass {t : Int} (h : IsoTime.FourDigitYear t) :
    (runPTRRefresh (answeredPass 501 t h) (freshSite 501)).2.db.uncheckedIPs = [Net.address 500] := by
  have hlast := (@unchecked_answeredPass 501 500 (by omega) t h).2 (by decide)
  have hall : ∀ ip ∈ (runPTRRefresh (answeredPass 501 t h) (freshSite 501)).2.db.uncheckedIPs, ip = Net.address 500 := by
    intro ip hip
    obtain ⟨row, hrow, -⟩ := Database.mem_uncheckedIPs.1 hip
    obtain ⟨old, hold, -⟩ := row_after_pass hrow
    obtain ⟨i, hi, rfl⟩ := exists_of_get?_freshSite hold
    have hleast := (unchecked_answeredPass hi h).1 hip
    rw [BATCH_LIMIT] at hleast
    rw [show i = 500 by omega]
  have hnodup : (runPTRRefresh (answeredPass 501 t h) (freshSite 501)).2.db.uncheckedIPs.Nodup :=
    (Table.nodupKeys _).sublist (List.filter_sublist.map _)
  generalize (runPTRRefresh (answeredPass 501 t h) (freshSite 501)).2.db.uncheckedIPs = ips at hlast hall hnodup
  cases ips with
  | nil => cases hlast
  | cons ip ips =>
    obtain rfl := hall ip List.mem_cons_self
    cases ips with
    | nil => rfl
    | cons ip' ips =>
      obtain rfl := hall ip' (List.mem_cons_of_mem _ List.mem_cons_self)
      exact absurd List.mem_cons_self (List.nodup_cons.1 hnodup).1

/-- A pass that comes in time, carried out. -/
theorem nextPass_of_le {s : Refresh} {p : Pass} (h : s.clock ≤ p.now) :
    nextPass s p = some
      { site := (runPTRRefresh p s.site).2
        clock := p.checkedAt
        log := s.log ++ [⟨p.now, s.site.db.dueIPs p.now, (runPTRRefresh p s.site).1,
          (p.saved (runPTRRefresh p s.site).1).map (·.ip)⟩] } :=
  if_pos h

/-- A first pass over a fresh pool that was answered. -/
theorem nextPass_answeredPass (n : Nat) {t : Int} (h : IsoTime.FourDigitYear t) :
    ∃ s, nextPass ⟨freshSite n, t, []⟩ (answeredPass n t h) = some s ∧ s.clock = t ∧
      s.site = (runPTRRefresh (answeredPass n t h) (freshSite n)).2 ∧
      ∀ pass ∈ s.log, ∀ x ∈ pass.queried, x ∈ pass.answered := by
  refine ⟨_, nextPass_of_le (le_refl t), rfl, rfl, fun pass hpass x hx => ?_⟩
  obtain rfl := List.mem_singleton.1 hpass
  have hqueried := hx
  rw [runPTRRefresh_fst] at hqueried
  simp only [pending_freshSite, ← List.map_take, List.take_range] at hqueried
  obtain ⟨i, hi, rfl⟩ := List.mem_map.1 hqueried
  exact mem_saved_answeredPass (lt_of_lt_of_le (List.mem_range.1 hi) (Nat.min_le_right _ _)) _ hx

/-- 501 addresses that were never checked: after a pass that gets an answer for each it queries, the next one queries the last
address, and the two go round. -/
theorem round_robin_answered : ∃ s pass, run nextPass ⟨freshSite 501, 0, []⟩
      [answeredPass 501 0 fourDigitYear_zero, silentPass 86400000 fourDigitYear_day] = some s ∧
    s.log.getLast? = some pass ∧ Net.address 500 ∈ pass.queried ∧ RoundRobin s.log := by
  obtain ⟨s₁, hfirst, hclock, hsite, hanswered⟩ := nextPass_answeredPass 501 fourDigitYear_zero
  obtain ⟨s₂, hsecond, pass, hlast, hpass⟩ : ∃ s₂, nextPass s₁ (silentPass 86400000 fourDigitYear_day) = some s₂ ∧
      ∃ pass, s₂.log.getLast? = some pass ∧ Net.address 500 ∈ pass.queried := by
    refine ⟨_, nextPass_of_le (show s₁.clock ≤ 86400000 by rw [hclock]; decide), _, List.getLast?_concat, ?_⟩
    simp only [runPTRRefresh_fst]
    unfold Database.pendingIPsForPTRRefresh
    rw [hsite, uncheckedIPs_answeredPass, List.take_of_length_le (by decide)]
    exact List.mem_append_left _ List.mem_cons_self
  have hrun : run nextPass ⟨freshSite 501, 0, []⟩
      [answeredPass 501 0 fourDigitYear_zero, silentPass 86400000 fourDigitYear_day] = some s₂ :=
    Transition.run_cons.2 ⟨s₁, hfirst, Transition.run_cons.2 ⟨s₂, hsecond, rfl⟩⟩
  refine ⟨s₂, pass, hrun, hlast, hpass, round_robin hrun ?_⟩
  have hsteady : Steady s₁ (silentPass 86400000 fourDigitYear_day) :=
    Or.inr fun pass' hpass' x hx _ => ⟨pass', hpass', le_refl _, hanswered pass' hpass' x hx⟩
  exact Transition.Meets.cons hfirst (Or.inr nofun) (Transition.Meets.cons hsecond hsteady trivial)

/-- 501 addresses that were never checked: a pass queries the first 500, the next one queries them again, and none the last. -/
theorem unanswered_first : ∃ (site : Site) (clock : Int) (ps : List Pass) (s : Refresh),
    run nextPass ⟨site, clock, []⟩ ps = some s ∧ ¬RoundRobin s.log := by
  refine ⟨_, _, _, _, run_silentPass 501 fourDigitYear_zero fourDigitYear_day (by decide), fun hround => ?_⟩
  have htake : ((List.range 501).map Net.address).take BATCH_LIMIT = (List.range 500).map Net.address := by
    rw [← List.map_take, List.take_range]
    rfl
  have hqueried : ∀ t, (silentLog 501 t).queried = (List.range 500).map Net.address := by
    intro t
    rw [silentLog, htake]
  have hfirst : ∀ t, Net.address 0 ∈ (silentLog 501 t).queried := by
    intro t
    rw [hqueried]
    exact List.mem_map_of_mem (List.mem_range.2 (by omega))
  have hlast : Net.address 500 ∈ (silentLog 501 0).due := mem_due_silentLog 0 (by omega)
  obtain ⟨pass, hpass, hmem⟩ :=
    hround [] (silentLog 501 0) [] (silentLog 501 86400000) [] rfl _ (hfirst 0) (hfirst 86400000) _ hlast
  have hsilent : ∃ t, pass = silentLog 501 t := by
    simp only [List.nil_append, List.mem_cons, List.not_mem_nil, or_false] at hpass
    rcases hpass with rfl | rfl
    · exact ⟨0, rfl⟩
    · exact ⟨86400000, rfl⟩
  obtain ⟨t, rfl⟩ := hsilent
  rw [hqueried] at hmem
  obtain ⟨i, hi, heq⟩ := List.mem_map.1 hmem
  have hsame := Net.address_injective heq
  rw [List.mem_range] at hi
  omega

end Gwsdb.Store
