import Gwsdb.Lemmas.Ingest
import Gwsdb.Web.Requests

/-!
# Two gates for one failure

`insertCheckRows` and `updatePoolBatch` test the same condition on the pool row before they record a failure of an IP that has no
success in the batch. Each reads the clock for itself, so the pool row can become old enough between the two.
-/

namespace Gwsdb.Store

open Interleave (Prog)

/-- The table has a check of the IP at the time. -/
def IpChecks.HasCheck (t : IpChecks) (ip checkedAt : String) : Prop := ∃ r ∈ t.rows, r.ip = ip ∧ r.checkedAt = checkedAt

instance (t : IpChecks) (ip checkedAt : String) : Decidable (t.HasCheck ip checkedAt) := inferInstanceAs (Decidable (∃ _ ∈ _, _))

/-- The pool lets a failure of the IP in. -/
def Database.gateOpen (db : Database) (cutoff ip : String) : Bool := (db.pool.get? ip).any (·.failureGate cutoff)

/-- What the two gates promise for a failure: the pool row changes only if the failure is in the history, and it does change when
the failure came into the history. The databases are those before the inserts, after them, and after the pool update. -/
def GatesAgree (before inserted updated : Database) (ip checkedAt : String) : Prop :=
  (updated.pool.get? ip ≠ inserted.pool.get? ip → inserted.checks.HasCheck ip checkedAt) ∧
    (¬before.checks.HasCheck ip checkedAt → inserted.checks.HasCheck ip checkedAt → updated.pool.get? ip ≠ inserted.pool.get? ip)

instance (before inserted updated : Database) (ip checkedAt : String) : Decidable
    (GatesAgree before inserted updated ip checkedAt) :=
  inferInstanceAs (Decidable (_ ∧ _))

/-! ## A failure alone -/

/-- Without a success only one row of an IP is kept. -/
theorem keptRows_of_failures {rows : List CheckRow} (h : ∀ r ∈ keptRows rows, r.ok = false)
    {f : CheckRow} (hf : f ∈ keptRows rows) :
    keptRows rows = [f] := by
  unfold keptRows at h hf ⊢
  cases hstate : coalesced rows with
  | none =>
    rw [hstate] at hf
    cases hf
  | some state =>
    simp only [hstate, Option.map_some, Option.getD_some, Coalesced.rows] at h hf ⊢
    cases hs : state.latestSuccess with
    | none =>
      simp only [hs] at hf
      simp only [List.mem_singleton.1 hf]
    | some s =>
      have hok := ((isCoalesced rows hstate).success_mem s hs).2
      simp only [hs] at h
      split at h
      · rename_i heq
        rw [heq, h state.latest (by simp)] at hok
        cases hok
      · rw [h s (by simp)] at hok
        cases hok

/-- The rows of an IP with failures only: one failure. -/
theorem rowsOf_failure {checks : List CheckRow} {f : CheckRow} (hf : f ∈ coalesceCheckRows checks)
    (hfailures : ∀ r ∈ coalesceCheckRows checks, r.ip = f.ip → r.ok = false) : rowsOf (coalesceCheckRows checks) f.ip = [f] := by
  have hmem : f ∈ rowsOf (coalesceCheckRows checks) f.ip := mem_rowsOf.2 ⟨hf, rfl⟩
  have hall : ∀ r ∈ rowsOf (coalesceCheckRows checks) f.ip, r.ok = false := fun r hr =>
    hfailures r (mem_rowsOf.1 hr).1 (mem_rowsOf.1 hr).2
  rw [rowsOf_coalesceCheckRows] at hmem hall ⊢
  exact keptRows_of_failures hall hmem

theorem hasCheck_iff {t : IpChecks} {ip checkedAt : String} :
    t.HasCheck ip checkedAt ↔ ∃ new ∈ t.history ip, new.checkedAt = checkedAt := by
  constructor
  · rintro ⟨r, hr, hip, heq⟩
    exact ⟨_, IpChecks.mem_history.2 ⟨r, hr, hip, rfl⟩, heq⟩
  · rintro ⟨new, hnew, heq⟩
    obtain ⟨r, hr, hip, rfl⟩ := IpChecks.mem_history.1 hnew
    exact ⟨r, hr, hip, heq⟩

/-- After the inserts the failure is there if it was there before or the gate was open. -/
theorem inserted_failure {t₁ : Int} {checks : List CheckRow} {s s₁ : Site} {u : Unit}
    (h : (insertCheckRows t₁ (coalesceCheckRows checks)).run serve s = (.ok u, s₁)) {f : CheckRow}
    (hf : f ∈ coalesceCheckRows checks)
    (hfailures : ∀ r ∈ coalesceCheckRows checks, r.ip = f.ip → r.ok = false) {checkedAt : String}
    (hts : toSQLiteDateTime f.checkedAt = .ok checkedAt) :
    s₁.db.pool = s.db.pool ∧ (s₁.db.checks.HasCheck f.ip checkedAt ↔
      s.db.checks.HasCheck f.ip checkedAt ∨ s.db.gateOpen (dedupCutoff t₁) f.ip = true) := by
  obtain ⟨⟨rows, hs₁⟩, hips⟩ := run_insertCheckRows h
  obtain ⟨news, hnews, hhistory⟩ := hips f.ip
  rw [rowsOf_failure hf hfailures] at hnews
  obtain ⟨new, hbound, rfl⟩ : ∃ new, IsBound f new ∧ news = [new] := by
    cases hnews with
    | cons hbound hnil =>
      cases hnil
      exact ⟨_, hbound, rfl⟩
  have hnewts : new.checkedAt = checkedAt := by
    have := hbound.checkedAt
    rw [hts] at this
    cases this
    rfl
  have hlets : s.db.letsIn (dedupCutoff t₁) (coalesceCheckRows checks) f.ip = s.db.gateOpen (dedupCutoff t₁) f.ip := by
    unfold Database.letsIn
    have hnone : ((coalesceCheckRows checks).any fun row => row.ok && decide (row.ip = f.ip)) = false := by
      rw [Bool.eq_false_iff]
      intro hany
      obtain ⟨r, hr, hcond⟩ := List.any_eq_true.1 hany
      obtain ⟨hok, hip⟩ := Bool.and_eq_true_iff.1 hcond
      rw [hfailures r hr (of_decide_eq_true hip)] at hok
      cases hok
    rw [hnone, Bool.false_or]
    rfl
  refine ⟨by rw [hs₁], ?_⟩
  rw [hasCheck_iff, hasCheck_iff, hhistory, hlets]
  cases hgate : s.db.gateOpen (dedupCutoff t₁) f.ip with
  | false => simp
  | true =>
    simp only [if_true, List.foldl_cons, List.foldl_nil, or_true, iff_true]
    unfold addCheck
    split
    · rename_i hthere
      rwa [hnewts] at hthere
    · exact ⟨new, by simp, hnewts⟩

/-- The pool update changes the row of an IP with a failure alone exactly when the gate is open. -/
theorem updated_failure {t₂ : Int} {checks : List CheckRow} {s₁ s₂ : Site} {u : Unit}
    (h : (updatePoolBatch t₂ (coalesceCheckRows checks)).run serve s₁ = (.ok u, s₂)) {f : CheckRow}
    (hf : f ∈ coalesceCheckRows checks)
    (hfailures : ∀ r ∈ coalesceCheckRows checks, r.ip = f.ip → r.ok = false) :
    s₂.db.pool.get? f.ip ≠ s₁.db.pool.get? f.ip ↔ s₁.db.gateOpen (dedupCutoff t₂) f.ip = true := by
  have hok : f.ok = false := hfailures f hf rfl
  have hunique : uniqueOf (keptRows (rowsOf (coalesceCheckRows checks) f.ip)) = some ⟨f, none⟩ := by
    rw [rowsOf_failure hf hfailures, keptRows_of_shape (Shape.failure f hok)]
    simp [uniqueOf, uniqueRow, hok]
  have hrun := (run_updatePoolBatch h f.ip).2
  rw [hunique] at hrun
  obtain ⟨stmt, v, hstmt, hv, hget⟩ := hrun
  obtain ⟨latestTS, -, ⟨-, rfl⟩ | ⟨_, _, _, hsuccess, -⟩⟩ := poolStmt_ok hstmt
  · rw [hget]
    unfold Database.gateOpen
    cases hrow : s₁.db.pool.get? f.ip with
    | none => simp [Database.rewrite]
    | some row =>
      have hle : row.revision ≤ s₁.db.version := s₁.db.stamped _ _ hrow
      cases hgate : row.failureGate (dedupCutoff t₂) with
      | false => simp only [Database.rewrite, Option.filter_some, hgate, Bool.false_eq_true, if_false,
        Option.map_none, Option.none_or,
          ne_eq, not_true_eq_false, Option.any_some]
      | true =>
        simp only [Database.rewrite, Option.filter_some, hgate, if_true, Option.map_some, Option.some_or,
          Option.any_some, ne_eq, iff_true]
        intro heq
        have hrev := congrArg PoolRow.revision (Option.some.inj heq)
        have : v = row.revision := hrev
        omega
  · cases hsuccess

/-! ## The two gates -/

/-- The gates agree on a failure exactly when it was in the history before, or the gate was as open at the first
clock reading as at the second. -/
theorem gates_agree_iff {t₁ t₂ : Int} {checks : List CheckRow} {s s₁ : Site} {u : Unit}
    (h : (insertCheckRows t₁ (coalesceCheckRows checks)).run serve s = (.ok u, s₁)) {f : CheckRow}
    (hf : f ∈ coalesceCheckRows checks)
    (hfailures : ∀ r ∈ coalesceCheckRows checks, r.ip = f.ip → r.ok = false) {checkedAt : String}
    (hts : toSQLiteDateTime f.checkedAt = .ok checkedAt) :
    GatesAgree s.db s₁.db ((updatePoolBatch t₂ (coalesceCheckRows checks)).run serve s₁).2.db f.ip checkedAt ↔
      s.db.checks.HasCheck f.ip checkedAt ∨ s.db.gateOpen (dedupCutoff t₁) f.ip = s.db.gateOpen (dedupCutoff t₂) f.ip := by
  obtain ⟨s₂, h₂⟩ := exists_run_updatePoolBatch h t₂
  obtain ⟨hpool, hinserted⟩ := inserted_failure h hf hfailures hts
  have hupdated := updated_failure h₂ hf hfailures
  have hgate : s₁.db.gateOpen (dedupCutoff t₂) f.ip = s.db.gateOpen (dedupCutoff t₂) f.ip := by
    unfold Database.gateOpen
    rw [hpool]
  rw [congrArg Prod.snd h₂, GatesAgree, hupdated, hinserted, hgate]
  generalize s.db.gateOpen (dedupCutoff t₁) f.ip = open₁
  generalize s.db.gateOpen (dedupCutoff t₂) f.ip = open₂
  constructor
  · rintro ⟨hchanges, hinserts⟩
    by_cases hthere : s.db.checks.HasCheck f.ip checkedAt
    · exact Or.inl hthere
    · exact Or.inr (Bool.eq_iff_iff.2 ⟨fun h₁ => hinserts hthere (Or.inr h₁), fun h₂ => (hchanges h₂).resolve_left hthere⟩)
  · rintro (hthere | hsame)
    · exact ⟨fun _ => Or.inl hthere, fun hnot _ => absurd hthere hnot⟩
    · exact ⟨fun h₂ => Or.inr (hsame.trans h₂), fun hnot hor => hsame.symm.trans (hor.resolve_left hnot)⟩

/-! ## Six hours and a millisecond -/

/-- A success in 2025 and a failure after it, recorded. -/
def failedSite : Site where
  db := Database.empty.after
    [.insertRecheck ⟨"8.8.8.8", true, some 12, none, none, "2025-08-31T23:00:00.000Z", some "SNI"⟩, .bumpPoolRevision,
      .poolInsert ⟨"8.8.8.8", false, some "SNI", "2025-08-31T23:00:00.000Z", 12, "2025-08-31T23:00:00.000Z", true⟩,
      .insertRecheck ⟨"8.8.8.8", false, none, some "recheck:timeout", none, "2025-08-31T23:59:59.999Z", some "SNI"⟩,
        .bumpPoolRevision,
      .poolCheck "8.8.8.8" "2025-08-31T23:59:59.999Z" false 0]
  edge := Keyed.Table.empty
  totals := none

/-- Another failure of it, almost six hours later. -/
def lateFailure : CheckRow := ⟨"8.8.8.8", false, none, some "timeout", none, some 1756706399000, .text "SNI"⟩

/-- When the failure becomes older than six hours between the two readings of the clock, the pool row
changes with no check behind it. -/
theorem dangling_pool_update : (1756706399999 : Int) ≤ 1756706400000 ∧ (∀ r ∈ coalesceCheckRows [lateFailure], r.ok = false) ∧
    ∃ s₁, (insertCheckRows 1756706399999 (coalesceCheckRows [lateFailure])).run serve failedSite = (.ok (), s₁) ∧
      ¬GatesAgree failedSite.db s₁.db ((updatePoolBatch 1756706400000 (coalesceCheckRows [lateFailure])).run serve s₁).2.db
        "8.8.8.8" "2025-09-01T05:59:59.000Z" :=
  ⟨by decide, by decide, ((insertCheckRows 1756706399999 (coalesceCheckRows [lateFailure])).run serve failedSite).2, rfl,
    by decide +kernel⟩

theorem gates_agree_one_reading :
    GatesAgree failedSite.db ((insertCheckRows 1756706399999 (coalesceCheckRows [lateFailure])).run serve failedSite).2.db
      ((updatePoolBatch 1756706399999 (coalesceCheckRows [lateFailure])).run serve
        ((insertCheckRows 1756706399999 (coalesceCheckRows [lateFailure])).run serve failedSite).2).2.db "8.8.8.8"
      "2025-09-01T05:59:59.000Z" :=
  (gates_agree_iff (u := ()) (f := lateFailure) rfl (by decide +kernel) (by decide +kernel) (by decide +kernel)).2 (Or.inr rfl)

end Gwsdb.Store
