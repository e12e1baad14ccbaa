import Gwsdb.Theorems.PtrRoundRobin

/-!
# Which IPs the PTR refresh takes for stale

The query compares texts in two forms, of which one has a `T` and the other a space between date and time. So it finds the IPs
that were checked before the day of the cutoff, and leaves out those checked on that day before its time (`lists_due_iff`): an IP
that was checked thirty days and some hours ago is not listed (`same_day_missed`).
-/

namespace Gwsdb.Store

open IsoTime
open Interleave (Prog)
open Keyed (Table)

/-! ## The statement -/

/-- The time values of a `Date`. -/
def IsTimeValue (t : Int) : Prop := -8640000000000000 ≤ t ∧ t ≤ 8640000000000000

/-- The PTR times of the pool are the texts of the instants that `time` has for the IPs. -/
def PtrTimes (db : Database) (time : String → Int) : Prop :=
  ∀ ip row text, db.pool.get? ip = some row → row.ptrCheckedAt = some text → IsTimeValue (time ip) ∧ text = isoText (time ip)

/-- The IP is in the pool and was checked. -/
def Checked (db : Database) (ip : String) : Prop := ∃ row, db.pool.get? ip = some row ∧ row.ptrCheckedAt ≠ none

/-- Thirty days before. -/
def thirtyDaysBefore (now : Int) : Int := now - 30 * 86400000

/-- The list is of the IPs never checked and after them those checked more than thirty days ago, oldest first, as many as fit. -/
def ListsDue (db : Database) (time : String → Int) (now : Int) (limit : Nat) (listed : List String) : Prop :=
  ∃ unchecked stale : List String, (unchecked ++ stale).Nodup ∧
    (∀ ip, ip ∈ unchecked ↔ ∃ row, db.pool.get? ip = some row ∧ row.ptrCheckedAt = none) ∧
    (∀ ip, ip ∈ stale ↔ Checked db ip ∧ time ip < thirtyDaysBefore now) ∧
    stale.Pairwise (fun a b => time a ≤ time b) ∧ listed = (unchecked ++ stale).take limit

/-- The IPs checked before the day on which the thirty days end. -/
def checkedBeforeDay (db : Database) (time : String → Int) (now : Int) : List String :=
  (db.pool.entries.filter fun e => e.2.ptrCheckedAt.isSome && decide (day (time e.1) < day (thirtyDaysBefore now))).map Prod.fst

/-- The IPs never checked fill the list. Or no IP was checked on the day on which the thirty days end before its time, or other
ones fill the list; and where years are written with a sign, none is after 9999 and no two are before 0. -/
def ReadsTimes (db : Database) (time : String → Int) (now : Int) (limit : Nat) : Prop :=
  limit ≤ db.uncheckedIPs.length ∨
    if FourDigitYear (thirtyDaysBefore now) then
      (∀ ip, Checked db ip → yearFromTime (time ip) ≤ 9999) ∧
        (∀ ip ip', Checked db ip → Checked db ip' → yearFromTime (time ip) < 0 → yearFromTime (time ip') < 0 →
          yearFromTime (time ip) = yearFromTime (time ip')) ∧
        ((∀ ip, Checked db ip → time ip < thirtyDaysBefore now → day (time ip) < day (thirtyDaysBefore now)) ∨
          limit ≤ db.uncheckedIPs.length + (checkedBeforeDay db time now).length)
    else ∀ ip, Checked db ip → thirtyDaysBefore now ≤ time ip

/-! ## Texts -/

/-- The text of an instant is before a cutoff when its day is, or its year is written with a sign. -/
theorem isoText_lt_cutoff_iff {t c : Int} (hc : FourDigitYear c) :
    isoText t < String.ofList (dateChars c ++ ' ' :: timeChars c) ↔ ¬FourDigitYear t ∨ day t < day c := by
  rw [isoText, String.lt_iff_toList_lt, String.toList_ofList, String.toList_ofList]
  by_cases ht : FourDigitYear t
  · rw [isoChars_eq]
    rcases lt_trichotomy (day t) (day c) with hlt | heq | hgt
    · exact iff_of_true (dateChars_append_lt ht hc hlt _ _) (Or.inr hlt)
    · -- on the same day a `T` comes after a space
      refine iff_of_false (fun h => ?_) (by simp [ht, heq])
      rw [dateChars_congr heq, Digits.append_lt_append_iff rfl, List.cons_lt_cons_iff] at h
      simp at h
    · exact iff_of_false (lt_asymm (dateChars_append_lt hc ht hgt _ _)) (by simp [ht, hgt.le])
  · refine iff_of_true ?_ (Or.inl ht)
    have hlt := isoChars_append_lt ht hc [] ('-' :: (Digits.digits 10 2 (monthDayFromTime c).1 ++
      '-' :: Digits.digits 10 2 (monthDayFromTime c).2) ++ ' ' :: timeChars c)
    rw [List.append_nil, ← List.append_assoc] at hlt
    exact hlt

/-- A time value's year is not below -1000000. -/
theorem year_of_timeValue {t : Int} (h : IsTimeValue t) : -10 ^ 6 < yearFromTime t := by
  have hfirst : yearFromTime (-8640000000000000) = -271821 := by decide
  have hmono := yearFromTime_mono h.1
  omega

/-- With no year after 9999 and at most one before 0, a later instant has a later text. -/
theorem isoText_lt_of_years {t u : Int} (ht : yearFromTime t ≤ 9999) (hu : yearFromTime u ≤ 9999)
    (hneg : yearFromTime t < 0 → yearFromTime u < 0 → yearFromTime t = yearFromTime u) (h : t < u) : isoText t < isoText u := by
  have hyears := yearFromTime_mono h.le
  rcases lt_or_ge (yearFromTime t) 0 with htneg | htpos
  · rcases lt_or_ge (yearFromTime u) 0 with huneg | hupos
    · exact isoText_lt_of_year_eq (hneg htneg huneg) h
    · have hsigned : ¬FourDigitYear t := fun hfour => absurd hfour.1 (not_le.2 htneg)
      have hlt := isoChars_append_lt hsigned ⟨hupos, hu⟩ [] ((isoChars u).drop (yearText (yearFromTime u)).length)
      rw [isoText, isoText, String.lt_iff_toList_lt, String.toList_ofList, String.toList_ofList]
      rw [List.append_nil] at hlt
      convert hlt using 1
      unfold isoChars
      rw [List.drop_left]
  · exact isoText_lt ⟨htpos, ht⟩ ⟨htpos.trans hyears, hu⟩ h

/-! ## What the two queries find -/

namespace Database

variable {db : Database}

/-- A pass lists the first due IPs, up to its limit. -/
theorem pending_eq_take (now : Int) (limit : Nat) : db.pendingIPsForPTRRefresh now limit = (db.dueIPs now).take limit := by
  unfold pendingIPsForPTRRefresh dueIPs
  rw [List.take_append]
  simp only [List.length_take]
  split
  · rename_i hfull
    rw [Nat.sub_eq_zero_of_le (by omega), List.take_zero, List.append_nil]
  · rename_i hfits
    rw [Nat.min_eq_right (by omega)]

/-- No IP is due twice. -/
theorem dueIPs_nodup (now : Int) : (db.dueIPs now).Nodup := by
  have hkeys : ∀ p : String × PoolRow → Bool, ((db.pool.entries.filter p).map Prod.fst).Nodup := fun p =>
    db.pool.nodupKeys.sublist (List.filter_sublist.map _)
  refine List.nodup_append.2 ⟨hkeys _, ?_, ?_⟩
  · exact ((List.perm_insertionSort _ _).map _).nodup_iff.2 (hkeys _)
  · rintro ip hunchecked _ hstale rfl
    obtain ⟨row, hrow, hnone⟩ := mem_uncheckedIPs.1 hunchecked
    obtain ⟨row', hrow', hstale⟩ := mem_staleIPs.1 hstale
    obtain ⟨t, -, ht, -⟩ := stale_iff.1 hstale
    rw [hrow] at hrow'
    cases hrow'
    rw [ht] at hnone
    cases hnone

end Database

variable {db : Database} {time : String → Int} {now : Int}

/-- The stale IPs are those whose text is before the cutoff. -/
theorem mem_staleIPs_iff (h : PtrTimes db time) (hc : FourDigitYear (thirtyDaysBefore now)) (ip : String) :
    ip ∈ db.staleIPs (ptrCutoff now) ↔
      Checked db ip ∧ (¬FourDigitYear (time ip) ∨ day (time ip) < day (thirtyDaysBefore now)) := by
  have hcutoff : ptrCutoff now = some (String.ofList
      (dateChars (thirtyDaysBefore now) ++ ' ' :: timeChars (thirtyDaysBefore now))) :=
    if_pos hc
  rw [Database.mem_staleIPs, hcutoff]
  simp only [stale_iff]
  constructor
  · rintro ⟨row, hrow, text, k, htext, hk, hlt⟩
    cases hk
    rw [(h ip row text hrow htext).2, isoText_lt_cutoff_iff hc] at hlt
    exact ⟨⟨row, hrow, by rw [htext]; exact Option.some_ne_none _⟩, hlt⟩
  · rintro ⟨⟨row, hrow, hne⟩, hlt⟩
    obtain ⟨text, htext⟩ := Option.ne_none_iff_exists'.1 hne
    refine ⟨row, hrow, text, _, htext, rfl, ?_⟩
    rw [(h ip row text hrow htext).2, isoText_lt_cutoff_iff hc]
    exact hlt

/-- The stale IPs are sorted by the texts of their instants. -/
theorem staleIPs_pairwise (h : PtrTimes db time) (cutoff : Option String) :
    (db.staleIPs cutoff).Pairwise fun a b => isoText (time a) ≤ isoText (time b) := by
  unfold Database.staleIPs
  rw [List.pairwise_map]
  refine (List.pairwise_insertionSort _ _).imp_of_mem fun {a b} ha hb hle => ?_
  have htext : ∀ e ∈ (db.pool.entries.filter fun e => e.2.stale cutoff).insertionSort fun a b : String × PoolRow =>
      a.2.ptrCheckedAt.getD "" ≤ b.2.ptrCheckedAt.getD "", e.2.ptrCheckedAt.getD "" = isoText (time e.1) := by
    intro e he
    rw [List.mem_insertionSort, List.mem_filter] at he
    obtain ⟨text, -, htext, -⟩ := stale_iff.1 he.2
    rw [htext]
    exact (h e.1 e.2 text ((Table.mem_entries_iff _ _ _).1 he.1) htext).2
  rwa [htext a ha, htext b hb] at hle

/-- Without a cutoff none is stale. -/
theorem staleIPs_none (hc : ¬FourDigitYear (thirtyDaysBefore now)) : db.staleIPs (ptrCutoff now) = [] := by
  refine List.eq_nil_iff_forall_not_mem.2 fun ip hip => ?_
  obtain ⟨row, -, hrow⟩ := Database.mem_staleIPs.1 hip
  obtain ⟨-, k, -, hk, -⟩ := stale_iff.1 hrow
  rw [show ptrCutoff now = none from if_neg hc] at hk
  cases hk

/-- The IPs checked on a day before the cut-off's day. -/
theorem mem_checkedBeforeDay (ip : String) :
    ip ∈ checkedBeforeDay db time now ↔ Checked db ip ∧ day (time ip) < day (thirtyDaysBefore now) := by
  unfold checkedBeforeDay Checked
  simp only [List.mem_map, List.mem_filter, Bool.and_eq_true, decide_eq_true_eq, Option.isSome_iff_ne_none, Prod.exists,
    Table.mem_entries_iff]
  constructor
  · rintro ⟨k, row, ⟨hrow, hne, hlt⟩, rfl⟩
    exact ⟨⟨row, hrow, hne⟩, hlt⟩
  · rintro ⟨⟨row, hrow, hne⟩, hlt⟩
    exact ⟨ip, row, ⟨hrow, hne, hlt⟩, rfl⟩

/-- With no year after 9999 they are those checked before the day of the cutoff. A year with a sign is one before
0. -/
theorem staleIPs_perm (h : PtrTimes db time) (hc : FourDigitYear (thirtyDaysBefore now))
    (hyears : ∀ ip, Checked db ip → yearFromTime (time ip) ≤ 9999) :
    (db.staleIPs (ptrCutoff now)).Perm (checkedBeforeDay db time now) := by
  have hkeys : (checkedBeforeDay db time now).Nodup := db.pool.nodupKeys.sublist (List.filter_sublist.map _)
  refine (List.perm_ext_iff_of_nodup ((List.nodup_append.1 (Database.dueIPs_nodup now)).2.1) hkeys).2 fun ip => ?_
  rw [mem_staleIPs_iff h hc, mem_checkedBeforeDay]
  refine and_congr_right fun hip => or_iff_right_of_imp fun hsigned => ?_
  have hneg : yearFromTime (time ip) < 0 := by
    have := hyears ip hip
    unfold FourDigitYear at hsigned
    omega
  by_contra hle
  have hmono := yearFromDay_mono (not_lt.1 hle)
  have hpos := hc.1
  unfold yearFromTime at hneg hpos
  omega

/-! ## What the writers leave -/

/-- The statement writes no PTR time but the text of an instant. -/
def Stmt.TouchesTime (stmt : Stmt) : Prop := ∀ ip text, stmt = .touchPTR ip text → ∃ t, IsTimeValue t ∧ text = isoText t

/-- What is written to a row keeps its PTR time, and a new row has none. -/
theorem rewrite_ptrCheckedAt {stmt : Stmt} (hstmt : ∀ ip text, stmt ≠ .touchPTR ip text) {old : Option PoolRow} {row : PoolRow}
    (h : db.rewrite stmt old = some row) : row.ptrCheckedAt = none ∨ ∃ r, old = some r ∧ row.ptrCheckedAt = r.ptrCheckedAt := by
  cases stmt with
  | poolUpsert p =>
    cases h
    cases old with
    | none => exact Or.inl rfl
    | some r => exact Or.inr ⟨r, rfl, rfl⟩
  | poolInsert p =>
    cases h
    cases old with
    | none => exact Or.inl rfl
    | some r => exact Or.inr ⟨r, rfl, rfl⟩
  | poolFailure ip latestTS cutoff =>
    obtain ⟨r, hr, rfl⟩ := Option.map_eq_some_iff.1 h
    exact Or.inr ⟨r, (Option.filter_eq_some_iff.1 hr).1, rfl⟩
  | poolCheck ip ts ok rttMs =>
    obtain ⟨r, hr, rfl⟩ := Option.map_eq_some_iff.1 h
    exact Or.inr ⟨r, hr, rfl⟩
  | touchPTR ip text => exact absurd rfl (hstmt ip text)
  | _ => cases h

/-- A statement that is no touch leaves the PTR time of a row, or makes a row without one. -/
theorem exec_ptrCheckedAt {stmt : Stmt} (hstmt : ∀ ip text, stmt ≠ .touchPTR ip text) {ip : String} {row : PoolRow}
    (h : (db.exec stmt).2.pool.get? ip = some row) :
    row.ptrCheckedAt = none ∨ ∃ old, db.pool.get? ip = some old ∧ row.ptrCheckedAt = old.ptrCheckedAt := by
  cases hip : stmt.poolIp? with
  | some k =>
    rw [Database.exec_writes db hip, Database.get?_writePool] at h
    split at h
    · rename_i hk
      subst hk
      rcases Option.or_eq_some_iff.1 h with hwritten | ⟨-, hold⟩
      · obtain ⟨written, hrewrite, rfl⟩ := Option.map_eq_some_iff.1 hwritten
        have hkept := rewrite_ptrCheckedAt hstmt hrewrite
        exact hkept
      · exact Or.inr ⟨row, hold, rfl⟩
    · exact Or.inr ⟨row, h, rfl⟩
  | none =>
    cases hinsert : stmt.inserted? with
    | some new =>
      rcases Database.exec_insert db hinsert with heq | heq <;> rw [heq] at h <;> exact Or.inr ⟨row, h, rfl⟩
    | none =>
      cases stmt with
      | recount ips =>
        unfold Database.exec at h
        rw [Table.get?_mapRows] at h
        obtain ⟨old, hold, rfl⟩ := Option.map_eq_some_iff.1 h
        refine Or.inr ⟨old, hold, ?_⟩
        split <;> rfl
      | evict ips =>
        unfold Database.exec at h
        exact Or.inr ⟨row, Table.get?_of_filter h, rfl⟩
      | bumpPoolRevision => exact Or.inr ⟨row, h, rfl⟩
      | markReset => exact Or.inr ⟨row, h, rfl⟩
      | deleteOldChecks ips k => exact Or.inr ⟨row, h, rfl⟩
      | savePTR ip' r => exact Or.inr ⟨row, h, rfl⟩
      | insertCheck new always cutoff => cases hinsert
      | insertRecheck new => cases hinsert
      | poolUpsert p => cases hip
      | poolFailure ip' ts cutoff => cases hip
      | poolCheck ip' ts ok rttMs => cases hip
      | poolInsert p => cases hip
      | touchPTR ip' text => cases hip

/-- A statement that writes times keeps every check time a time's text. -/
theorem ptrTimes_exec {stmt : Stmt} (hstmt : stmt.TouchesTime) (h : ∃ time, PtrTimes db time) :
    ∃ time, PtrTimes (db.exec stmt).2 time := by
  obtain ⟨time, h⟩ := h
  by_cases htouch : ∃ ip text, stmt = .touchPTR ip text
  · obtain ⟨ip, text, rfl⟩ := htouch
    obtain ⟨t, ht, rfl⟩ := hstmt ip text rfl
    refine ⟨Function.update time ip t, fun ip' row text hrow htext => ?_⟩
    rw [Database.exec_writes db rfl, Database.get?_writePool] at hrow
    split at hrow
    · rename_i hsame
      subst hsame
      rw [Function.update_self]
      cases hold : db.pool.get? ip' with
      | none =>
        rw [hold] at hrow
        cases hrow
      | some old =>
        rw [hold] at hrow
        cases hrow
        exact ⟨ht, (Option.some.inj htext).symm⟩
    · rename_i hother
      rw [Function.update_of_ne hother]
      exact h ip' row text hrow htext
  · refine ⟨time, fun ip row text hrow htext => ?_⟩
    rcases exec_ptrCheckedAt (fun ip text heq => htouch ⟨ip, text, heq⟩) hrow with hnone | ⟨old, hold, heq⟩
    · rw [hnone] at htext
      cases htext
    · exact h ip old text hold (heq ▸ htext)

/-- A call writes no other PTR times. -/
def TouchesTimes : Call → Prop
  | .batch stmts => ∀ stmt ∈ stmts, stmt.TouchesTime
  | _ => True

/-- A program of such calls leaves the PTR times those of instants. -/
theorem ptrTimes_run {α : Type} {p : Program α} (hp : p.Makes TouchesTimes) {s : Site} (h : ∃ time, PtrTimes s.db time) :
    ∃ time, PtrTimes (p.run serve s).2.db time := by
  refine Prog.run_invariant (I := fun s => ∃ time, PtrTimes s.db time) (fun e s he hs => ?_) p hp s h
  cases e with
  | batch stmts =>
    rw [show (serve (.batch stmts) s).2.db = s.db.after stmts from Database.batch_snd s.db stmts]
    exact Database.after_invariant (I := fun db => ∃ time, PtrTimes db time)
      (fun db stmt hstmt hdb => ptrTimes_exec hstmt hdb) he hs
  | _ => exact hs

/-- The two statements for an entry with a time. -/
theorem ptrStmts_touches {e : PTRCacheEntry} (he : ∀ t, e.checkedAt = some t → IsTimeValue t) {stmts : List Stmt}
    (h : ptrStmts e = .ok stmts) : ∀ stmt ∈ stmts, stmt.TouchesTime := by
  unfold ptrStmts toSQLiteDateTime toISOString at h
  cases hdate : e.checkedAt with
  | none =>
    rw [hdate] at h
    cases h
  | some t =>
    rw [hdate] at h
    cases h
    intro stmt hm ip text heq
    rw [heq] at hm
    simp only [List.mem_cons, reduceCtorEq, Stmt.touchPTR.injEq, List.not_mem_nil, or_false, false_or] at hm
    exact ⟨t, he t hdate, hm.2⟩

/-- Bumping the revision writes no time. -/
theorem bump_touches : Stmt.bumpPoolRevision.TouchesTime := fun _ _ heq => nomatch heq

/-- Saving an answer writes the text of its time. -/
theorem savePTR_touches {e : PTRCacheEntry} (he : ∀ t, e.checkedAt = some t → IsTimeValue t) :
    (savePTR e).Makes TouchesTimes := by
  refine Prog.makes_ofExcept_bind fun stmts hstmts => ⟨fun stmt hm => ?_, fun _ => trivial⟩
  rcases List.mem_cons.1 hm with rfl | hm
  · exact bump_touches
  · exact ptrStmts_touches he hstmts stmt hm

/-- So does saving a batch of answers. -/
theorem savePTRBatch_touches {entries : List PTRCacheEntry} (h : ∀ e ∈ entries, ∀ t, e.checkedAt = some t → IsTimeValue t) :
    (savePTRBatch entries).Makes TouchesTimes := by
  refine makes_inChunks (by decide) fun bound hbound stmt hm => ?_
  rcases List.mem_cons.1 hm with rfl | hm
  · exact bump_touches
  · obtain ⟨stmts, hstmts, hm⟩ := List.mem_flatten.1 hm
    obtain ⟨e, he, hbind⟩ := hbound stmts hstmts
    exact ptrStmts_touches (h e he) hbind stmt hm

/-! ## Both directions -/

/-- The IPs checked more than thirty days ago, oldest first. -/
def oldest (db : Database) (time : String → Int) (now : Int) (p : String → Bool) : List String :=
  ((db.pool.entries.filter fun e => e.2.ptrCheckedAt.isSome && decide (time e.1 < thirtyDaysBefore now) && p e.1).map
    Prod.fst).insertionSort fun a b => time a ≤ time b

/-- The oldest IPs are those checked before the cut-off that the predicate takes. -/
theorem mem_oldest (p : String → Bool) (ip : String) :
    ip ∈ oldest db time now p ↔ Checked db ip ∧ time ip < thirtyDaysBefore now ∧ p ip = true := by
  unfold oldest Checked
  simp only [List.mem_insertionSort, List.mem_map, List.mem_filter, Bool.and_eq_true,
    decide_eq_true_eq, Option.isSome_iff_ne_none,
    Prod.exists, Table.mem_entries_iff]
  constructor
  · rintro ⟨k, row, ⟨hrow, ⟨hne, hlt⟩, hp⟩, rfl⟩
    exact ⟨⟨row, hrow, hne⟩, hlt, hp⟩
  · rintro ⟨⟨row, hrow, hne⟩, hlt, hp⟩
    exact ⟨ip, row, ⟨hrow, ⟨hne, hlt⟩, hp⟩, rfl⟩

/-- None of them occurs twice. -/
theorem oldest_nodup (p : String → Bool) : (oldest db time now p).Nodup :=
  ((List.perm_insertionSort _ _).nodup_iff).2 (db.pool.nodupKeys.sublist (List.filter_sublist.map _))

/-- They stand in the order of their times. -/
theorem oldest_pairwise (p : String → Bool) : (oldest db time now p).Pairwise fun a b => time a ≤ time b :=
  List.pairwise_insertionSort _ _

/-- A checked IP is not among those never checked. -/
theorem Checked.notMem_uncheckedIPs {ip : String} (h : Checked db ip) : ip ∉ db.uncheckedIPs := by
  intro hmem
  obtain ⟨row, hrow, hne⟩ := h
  obtain ⟨row', hrow', hnone⟩ := Database.mem_uncheckedIPs.1 hmem
  rw [hrow] at hrow'
  cases hrow'
  exact hne hnone

/-- What has to be shown of a list of stale IPs that comes after those never checked. -/
theorem listsDue_of_stale {limit : Nat} {stale : List String} (hnodup : stale.Nodup)
    (hmem : ∀ ip, ip ∈ stale ↔ Checked db ip ∧ time ip < thirtyDaysBefore now)
    (hsorted : stale.Pairwise fun a b => time a ≤ time b)
    (htake : (db.dueIPs now).take limit = (db.uncheckedIPs ++ stale).take limit) :
    ListsDue db time now limit (db.pendingIPsForPTRRefresh now limit) := by
  refine ⟨db.uncheckedIPs, stale, ?_, fun ip => Database.mem_uncheckedIPs, hmem, hsorted, ?_⟩
  · refine List.nodup_append.2 ⟨(List.nodup_append.1 (Database.dueIPs_nodup now)).1, hnodup, ?_⟩
    rintro ip hunchecked _ hstale rfl
    exact ((hmem ip).1 hstale).1.notMem_uncheckedIPs hunchecked
  · rw [Database.pending_eq_take, htake]

/-- The IPs that the query misses: due, but checked on the day on which the thirty days end. -/
def missedIPs (db : Database) (time : String → Int) (now : Int) : List String :=
  oldest db time now fun ip => decide (¬day (time ip) < day (thirtyDaysBefore now))

/-- The missed IPs are those checked before the cut-off on its own day. -/
theorem mem_missedIPs (ip : String) : ip ∈ missedIPs db time now ↔
    Checked db ip ∧ time ip < thirtyDaysBefore now ∧ ¬day (time ip) < day (thirtyDaysBefore now) := by
  simp [missedIPs, mem_oldest]

/-- An instant of an earlier day is earlier. -/
theorem lt_of_day_lt {t t' : Int} (h : day t < day t') : t < t' := by
  unfold day at h
  omega

/-- The stale IPs are those checked on a day before the cut-off's day. -/
theorem mem_staleIPs_iff_day (h : PtrTimes db time) (hc : FourDigitYear (thirtyDaysBefore now))
    (hyears : ∀ ip, Checked db ip → yearFromTime (time ip) ≤ 9999) (ip : String) :
    ip ∈ db.staleIPs (ptrCutoff now) ↔ Checked db ip ∧ day (time ip) < day (thirtyDaysBefore now) :=
  (staleIPs_perm h hc hyears).mem_iff.trans (mem_checkedBeforeDay ip)

/-- What the query finds and what it misses are the due IPs. -/
theorem mem_stale_append_missed (h : PtrTimes db time) (hc : FourDigitYear (thirtyDaysBefore now))
    (hyears : ∀ ip, Checked db ip → yearFromTime (time ip) ≤ 9999) (ip : String) :
    ip ∈ db.staleIPs (ptrCutoff now) ++ missedIPs db time now ↔ Checked db ip ∧ time ip < thirtyDaysBefore now := by
  rw [List.mem_append, mem_staleIPs_iff_day h hc hyears, mem_missedIPs]
  constructor
  · rintro (⟨hip, hlt⟩ | ⟨hip, hlt, -⟩)
    · exact ⟨hip, lt_of_day_lt hlt⟩
    · exact ⟨hip, hlt⟩
  · rintro ⟨hip, hlt⟩
    by_cases hd : day (time ip) < day (thirtyDaysBefore now)
    · exact Or.inl ⟨hip, hd⟩
    · exact Or.inr ⟨hip, hlt, hd⟩

/-- No IP is both stale and missed. -/
theorem nodup_stale_append_missed (h : PtrTimes db time) (hc : FourDigitYear (thirtyDaysBefore now))
    (hyears : ∀ ip, Checked db ip → yearFromTime (time ip) ≤ 9999) :
    (db.staleIPs (ptrCutoff now) ++ missedIPs db time now).Nodup := by
  refine List.nodup_append.2 ⟨(List.nodup_append.1 (Database.dueIPs_nodup now)).2.1, oldest_nodup _, ?_⟩
  rintro ip hstale _ hmissed rfl
  exact ((mem_missedIPs ip).1 hmissed).2.2 ((mem_staleIPs_iff_day h hc hyears ip).1 hstale).2

/-- The missed IPs come after those found, so the oldest are first. -/
theorem sorted_stale_append_missed (h : PtrTimes db time) (hc : FourDigitYear (thirtyDaysBefore now))
    (hyears : ∀ ip, Checked db ip → yearFromTime (time ip) ≤ 9999)
    (hneg : ∀ ip ip', Checked db ip → Checked db ip' → yearFromTime (time ip) < 0 → yearFromTime (time ip') < 0 →
      yearFromTime (time ip) = yearFromTime (time ip')) :
    (db.staleIPs (ptrCutoff now) ++ missedIPs db time now).Pairwise fun a b => time a ≤ time b := by
  have hstale := mem_staleIPs_iff_day h hc hyears
  refine List.pairwise_append.2 ⟨?_, oldest_pairwise _, fun a ha b hb => ?_⟩
  · refine (staleIPs_pairwise h _).imp_of_mem fun {a b} ha hb hle => ?_
    have hA := ((hstale a).1 ha).1
    have hB := ((hstale b).1 hb).1
    by_contra hlt
    exact absurd hle (not_le.2 (isoText_lt_of_years (hyears b hB) (hyears a hA) (hneg b a hB hA) (not_le.1 hlt)))
  · have hfound := ((hstale a).1 ha).2
    have hlate := ((mem_missedIPs b).1 hb).2.2
    exact (lt_of_day_lt (hfound.trans_le (not_lt.1 hlate))).le

/-- A pass that reads the times right lists what is due. -/
theorem listsDue_of_readsTimes {limit : Nat} (h : PtrTimes db time) (hreads : ReadsTimes db time now limit) :
    ListsDue db time now limit (db.pendingIPsForPTRRefresh now limit) := by
  rcases hreads with hfull | hreads
  · refine @listsDue_of_stale db time now limit (oldest db time now fun _ => true) (oldest_nodup _)
      (fun ip => ?_) (oldest_pairwise _) ?_
    · simp [mem_oldest]
    rw [Database.dueIPs, List.take_append_of_le_length hfull, List.take_append_of_le_length hfull]
  by_cases hc : FourDigitYear (thirtyDaysBefore now)
  · rw [if_pos hc] at hreads
    obtain ⟨hyears, hneg, hday⟩ := hreads
    refine listsDue_of_stale (nodup_stale_append_missed h hc hyears) (mem_stale_append_missed h hc hyears)
      (sorted_stale_append_missed h hc hyears hneg) ?_
    rw [Database.dueIPs, ← List.append_assoc]
    rcases hday with hnone | hfull
    · have hnil : missedIPs db time now = [] := by
        refine List.eq_nil_iff_forall_not_mem.2 fun ip hip => ?_
        obtain ⟨hchecked, hlt, hd⟩ := (mem_missedIPs ip).1 hip
        exact hd (hnone ip hchecked hlt)
      rw [hnil, List.append_nil]
    · refine (List.take_append_of_le_length ?_).symm
      rw [List.length_append, (staleIPs_perm h hc hyears).length_eq]
      exact hfull
  · rw [if_neg hc] at hreads
    refine listsDue_of_stale List.nodup_nil (fun ip => iff_of_false List.not_mem_nil ?_) List.Pairwise.nil ?_
    · rintro ⟨hip, hlt⟩
      exact absurd (hreads ip hip) (not_le.2 hlt)
    · rw [Database.dueIPs, staleIPs_none hc]

/-- The due IPs, oldest first, of which as many as have room are what the query finds. -/
structure StaleList (db : Database) (time : String → Int) (now : Int) (limit : Nat) (stale : List String) : Prop where
  mem : ∀ ip, ip ∈ stale ↔ Checked db ip ∧ time ip < thirtyDaysBefore now
  sorted : stale.Pairwise fun a b => time a ≤ time b
  take : (db.staleIPs (ptrCutoff now)).take (limit - db.uncheckedIPs.length) = stale.take (limit - db.uncheckedIPs.length)

/-- A list that is right begins, after the IPs never checked, with the stale IPs as the query has them. -/
theorem exists_staleList {limit : Nat} (hlists : ListsDue db time now limit (db.pendingIPsForPTRRefresh now limit)) :
    ∃ stale, StaleList db time now limit stale := by
  obtain ⟨unchecked, stale, hnodup, hunchecked, hstale, hsorted, htake⟩ := hlists
  have hlength : unchecked.length = db.uncheckedIPs.length :=
    ((List.perm_ext_iff_of_nodup (List.nodup_append.1 hnodup).1 (List.nodup_append.1 (Database.dueIPs_nodup now)).1).2 fun ip =>
      (hunchecked ip).trans Database.mem_uncheckedIPs.symm).length_eq
  refine ⟨stale, hstale, hsorted, ?_⟩
  have hdrop := congrArg (List.drop db.uncheckedIPs.length) htake
  rw [Database.pending_eq_take, Database.dueIPs, List.drop_take, List.drop_take, List.drop_left, ← hlength,
    List.drop_left, hlength] at hdrop
  exact hdrop

namespace StaleList

variable {limit : Nat} {stale : List String}

/-- The first IP of a list that is not full. -/
theorem exists_first (hs : StaleList db time now limit stale) (h : PtrTimes db time) (hroom : ¬limit ≤ db.uncheckedIPs.length)
    {ip : String} (hip : ip ∈ db.staleIPs (ptrCutoff now)) :
    ∃ first ∈ stale, isoText (time first) ≤ isoText (time ip) ∧ ∀ ip' ∈ stale, time first ≤ time ip' := by
  have hpairwise := staleIPs_pairwise h (ptrCutoff now)
  obtain ⟨k, hk⟩ : ∃ k, limit - db.uncheckedIPs.length = k + 1 := ⟨limit - db.uncheckedIPs.length - 1, by omega⟩
  have htake := hs.take
  have hsorted := hs.sorted
  rw [hk] at htake
  cases hfound : db.staleIPs (ptrCutoff now) with
  | nil =>
    rw [hfound] at hip
    cases hip
  | cons first found =>
    rw [hfound] at htake hip hpairwise
    cases hlist : stale with
    | nil =>
      rw [hlist] at htake
      cases htake
    | cons first' stale =>
      rw [hlist] at htake hsorted
      rw [List.take_succ_cons, List.take_succ_cons, List.cons.injEq] at htake
      obtain ⟨rfl, -⟩ := htake
      refine ⟨first, List.mem_cons_self, ?_, ?_⟩
      · rcases List.mem_cons.1 hip with rfl | hip
        · exact le_refl _
        · exact (List.pairwise_cons.1 hpairwise).1 ip hip
      · intro ip' hip'
        rcases List.mem_cons.1 hip' with rfl | hip'
        · exact le_refl _
        · exact (List.pairwise_cons.1 hsorted).1 ip' hip'

/-- An IP checked after 9999 would be found, and come before all that are due. -/
theorem year_le (hs : StaleList db time now limit stale) (h : PtrTimes db time) (hc : FourDigitYear (thirtyDaysBefore now))
    (hroom : ¬limit ≤ db.uncheckedIPs.length) {ip : String} (hip : Checked db ip) : yearFromTime (time ip) ≤ 9999 := by
  by_contra hlate
  have hfound := (mem_staleIPs_iff h hc ip).2 ⟨hip, Or.inl fun hfour => hlate hfour.2⟩
  obtain ⟨first, hin, hle, -⟩ := hs.exists_first h hroom hfound
  have hlt := ((hs.mem first).1 hin).2
  have hyear := (yearFromTime_mono hlt.le).trans hc.2
  exact absurd hle (not_le.2 (isoText_lt_of_late (not_le.1 hlate) hyear))

/-- Of two years before 0 the query has the later one first. -/
theorem not_year_lt (hs : StaleList db time now limit stale) (h : PtrTimes db time) (hc : FourDigitYear (thirtyDaysBefore now))
    (hroom : ¬limit ≤ db.uncheckedIPs.length) {ip ip' : String} (hip : Checked db ip) (hip' : Checked db ip')
    (hneg : yearFromTime (time ip') < 0) : ¬yearFromTime (time ip) < yearFromTime (time ip') := by
  intro hlt
  have hsigned : ¬FourDigitYear (time ip') := fun hfour => absurd hfour.1 (not_le.2 hneg)
  obtain ⟨first, hin, hle, hleast⟩ := hs.exists_first h hroom ((mem_staleIPs_iff h hc ip').2 ⟨hip', Or.inl hsigned⟩)
  have hstale : ip ∈ stale := by
    refine (hs.mem ip).2 ⟨hip, ?_⟩
    by_contra hge
    have hyear := hc.1.trans (yearFromTime_mono (not_lt.1 hge))
    omega
  have hfirst := yearFromTime_mono (hleast ip hstale)
  obtain ⟨⟨row, hrow, hne⟩, -⟩ := (hs.mem first).1 hin
  obtain ⟨text, htext⟩ := Option.ne_none_iff_exists'.1 hne
  have hvalid := (h first row text hrow htext).1
  exact absurd hle (not_le.2 (isoText_lt_of_negative hneg (year_of_timeValue hvalid) (hfirst.trans_lt hlt)))

/-- When there is room for more than the query finds, it finds all that are due. -/
theorem eq_staleIPs (hs : StaleList db time now limit stale)
    (hmore : db.uncheckedIPs.length + (db.staleIPs (ptrCutoff now)).length < limit) : db.staleIPs (ptrCutoff now) = stale := by
  have htake := hs.take
  rw [List.take_of_length_le (by omega)] at htake
  have hlength := congrArg List.length htake
  rw [List.length_take] at hlength
  rw [htake, List.take_of_length_le (by omega)]

end StaleList

/-- A pass that lists what is due reads the times right. -/
theorem readsTimes_of_listsDue {limit : Nat} (h : PtrTimes db time)
    (hlists : ListsDue db time now limit (db.pendingIPsForPTRRefresh now limit)) : ReadsTimes db time now limit := by
  obtain ⟨stale, hs⟩ := exists_staleList hlists
  refine or_iff_not_imp_left.2 fun hroom => ?_
  split
  · rename_i hc
    have hyears : ∀ ip, Checked db ip → yearFromTime (time ip) ≤ 9999 := fun _ => hs.year_le h hc hroom
    refine ⟨hyears, fun ip ip' hip hip' hneg hneg' => ?_, or_iff_not_imp_right.2 fun hmore ip hip hlt => ?_⟩
    · exact le_antisymm (not_lt.1 (hs.not_year_lt h hc hroom hip' hip hneg)) (not_lt.1 (hs.not_year_lt h hc hroom hip hip' hneg'))
    · rw [← (staleIPs_perm h hc hyears).length_eq, not_le] at hmore
      have hin : ip ∈ db.staleIPs (ptrCutoff now) := (hs.eq_staleIPs hmore) ▸ (hs.mem ip).2 ⟨hip, hlt⟩
      exact ((mem_staleIPs_iff_day h hc hyears ip).1 hin).2
  · rename_i hc
    intro ip hip
    by_contra hlt
    have hin : ip ∈ stale := (hs.mem ip).2 ⟨hip, not_le.1 hlt⟩
    have htake := hs.take
    rw [staleIPs_none hc, List.take_nil, eq_comm, List.take_eq_nil_iff] at htake
    rcases htake with hzero | rfl
    · omega
    · cases hin

/-- Of a pool with the times that the two writers of PTR results wrote, at any time and for any limit, the right IPs are listed
exactly when no IP was checked on the day on which the thirty days end before its time, or the list is full without it. -/
theorem lists_due_iff (h : PtrTimes db time) (now : Int) (limit : Nat) :
    ListsDue db time now limit (db.pendingIPsForPTRRefresh now limit) ↔ ReadsTimes db time now limit :=
  ⟨readsTimes_of_listsDue h, listsDue_of_readsTimes h⟩

/-- A pool of IPs, each checked at an instant or never. -/
def checkedPool (times : List (String × Option Int)) : Table String PoolRow :=
  times.foldr (fun e pool => pool.put e.1 { uncheckedRow with ptrCheckedAt := e.2.map isoText }) Table.empty

/-- The checked pool has a row for each IP, with its time. -/
theorem get?_checkedPool {times : List (String × Option Int)} {ip : String} {row : PoolRow}
    (h : (checkedPool times).get? ip = some row) :
    ∃ e ∈ times, e.1 = ip ∧ row = { uncheckedRow with ptrCheckedAt := e.2.map isoText } := by
  induction times with
  | nil => cases h
  | cons e times ih =>
    rw [checkedPool, List.foldr_cons, Table.get?_put] at h
    split at h
    · exact ⟨e, List.mem_cons_self, (‹_› : ip = e.1).symm, (Option.some.inj h).symm⟩
    · obtain ⟨e', he', hip, hrow⟩ := ih h
      exact ⟨e', List.mem_cons_of_mem e he', hip, hrow⟩

/-- Its rows are stamped no later than its revision. -/
theorem checkedPool_stamped (times : List (String × Option Int)) :
    ∀ ip row, (checkedPool times).get? ip = some row → row.revision ≤ 1 := by
  intro ip row h
  obtain ⟨e, -, -, rfl⟩ := get?_checkedPool h
  exact le_refl 1

/-- A fresh database with it. -/
def checkedAt (times : List (String × Option Int)) : Database :=
  { (freshSite 0).db with pool := checkedPool times, stamped := checkedPool_stamped times }

/-- Its check times are texts of times. -/
theorem ptrTimes_checkedAt {times : List (String × Option Int)} {time : String → Int}
    (h : ∀ e ∈ times, ∀ t ∈ e.2, time e.1 = t ∧ IsTimeValue t) : PtrTimes (checkedAt times) time := by
  intro ip row text hrow htext
  obtain ⟨e, he, rfl, rfl⟩ := get?_checkedPool hrow
  obtain ⟨t, ht, rfl⟩ := Option.map_eq_some_iff.1 htext
  obtain ⟨htime, hvalid⟩ := h e he t ht
  rw [htime]
  exact ⟨hvalid, rfl⟩

/-- One IP that was never checked, one checked thirty-one days before noon of the last day of August, and one checked an hour
less than thirty days before. -/
def noonTimes : List (String × Option Int) :=
  [("8.8.8.8", some 1753963200000), ("8.8.8.9", some 1754053200000), ("8.8.4.4", none)]

/-- Their times. -/
def noonTime (ip : String) : Int := if ip = "8.8.8.8" then 1753963200000 else 1754053200000

/-- At noon the first is listed after the one never checked, and the last is not. -/
theorem lists_due_iff_noon : (checkedAt noonTimes).pendingIPsForPTRRefresh 1756641600000 500 = ["8.8.4.4", "8.8.8.8"] ∧
    ListsDue (checkedAt noonTimes) noonTime 1756641600000 500 ["8.8.4.4", "8.8.8.8"] := by
  have hlisted : (checkedAt noonTimes).pendingIPsForPTRRefresh 1756641600000 500 = ["8.8.4.4", "8.8.8.8"] := by decide +kernel
  have htimes : ∀ ip, Checked (checkedAt noonTimes) ip → noonTime ip = 1753963200000 ∨ noonTime ip = 1754053200000 := by
    intro ip _
    unfold noonTime
    split
    · exact Or.inl rfl
    · exact Or.inr rfl
  have hreads : ReadsTimes (checkedAt noonTimes) noonTime 1756641600000 500 := by
    refine Or.inr ?_
    rw [if_pos (by decide)]
    refine ⟨fun ip hip => ?_, fun ip ip' hip _ hneg _ => ?_, Or.inl fun ip hip hlt => ?_⟩
    · rcases htimes ip hip with h | h <;> rw [h] <;> decide
    · rcases htimes ip hip with h | h <;> rw [h] at hneg <;> exact absurd hneg (by decide)
    · rcases htimes ip hip with h | h <;> rw [h] at hlt ⊢
      · decide
      · exact absurd hlt (by decide)
  rw [← hlisted]
  exact ⟨rfl, (lists_due_iff (ptrTimes_checkedAt (by unfold IsTimeValue; decide)) 1756641600000 500).2 hreads⟩

/-- Checked at six on the first of August, the IP is not listed at noon on the last day of the month,
thirty days and six hours later. -/
theorem same_day_missed :
    (PtrTimes (checkedAt [("8.8.8.8", some 1754028000000)]) fun _ => 1754028000000) ∧
      (checkedAt [("8.8.8.8", some 1754028000000)]).pendingIPsForPTRRefresh 1756641600000 500 = [] ∧
      ¬ListsDue (checkedAt [("8.8.8.8", some 1754028000000)]) (fun _ => 1754028000000) 1756641600000 500
        ((checkedAt [("8.8.8.8", some 1754028000000)]).pendingIPsForPTRRefresh 1756641600000 500) := by
  have hnone : (checkedAt [("8.8.8.8", some 1754028000000)]).pendingIPsForPTRRefresh 1756641600000 500 = [] := by decide +kernel
  refine ⟨ptrTimes_checkedAt (by unfold IsTimeValue; decide), hnone, ?_⟩
  rintro ⟨unchecked, stale, -, -, hstale, -, htake⟩
  have hin : "8.8.8.8" ∈ stale := (hstale _).2 ⟨⟨_, rfl, Option.some_ne_none _⟩, by decide⟩
  rw [hnone, eq_comm, List.take_eq_nil_iff, List.append_eq_nil_iff] at htake
  rcases htake with hzero | ⟨-, rfl⟩
  · cases hzero
  · cases hin

end Gwsdb.Store
