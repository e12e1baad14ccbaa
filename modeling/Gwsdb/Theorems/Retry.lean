import Gwsdb.Lemmas.Retry

/-!
# A batch that is stored again

The scanner submits a batch again after an error or a lost answer. The inserts drop what is there, but the pool update of a
success counts it once more (`success_counted_twice`), and the gate of a failure reads a pool row that the first attempt may have
changed. `retry_idempotent_iff` says when a second attempt leaves what a single one would have left.
-/

namespace Gwsdb.Store

/-! ## A pool row -/

/-- A success is counted. -/
theorem timesSeen_apply {u : UniqueRow} (h : u.success ≠ none) (cutoff : String) (old : Option PoolRow) :
    (u.apply cutoff old).map PoolRow.timesSeen = some ((old.map PoolRow.timesSeen).getD 0 + 1) := by
  obtain ⟨success, hsuccess⟩ := Option.ne_none_iff_exists'.1 h
  rw [UniqueRow.apply, hsuccess]
  cases old <;> rfl

/-- A pool row that tells a failure. -/
def PoolRow.failedAt (row : PoolRow) (checkedAt : String) : PoolRow :=
  { row with lastCheckedAt := some checkedAt, lastCheckOk := some false }

/-- A failure changes nothing when the row tells of it already. -/
theorem failedAt_eq_iff {row : PoolRow} {checkedAt : String} :
    row.failedAt checkedAt = row ↔ row.lastCheckedAt = some checkedAt ∧ row.lastCheckOk = some false := by
  constructor
  · intro h
    rw [← h]
    exact ⟨rfl, rfl⟩
  · rintro ⟨hat, hok⟩
    unfold PoolRow.failedAt
    rw [← hat, ← hok]

/-- A failure is applied when the gate lets it in. -/
theorem apply_failure {u : UniqueRow} (h : u.success = none) (cutoff : String) (row : PoolRow) :
    u.apply cutoff (some row) = some (if row.failureGate cutoff then row.failedAt u.latest.checkedAt.text else row) := by
  rw [UniqueRow.apply, h]
  rfl

/-- An entry applied twice to a pool row is the entry applied once exactly when it has no success, and where the first
time takes effect the second does too or the row said the same before. Once the row tells of the failure it stays as
it is. -/
theorem apply_twice_iff {u : UniqueRow} {c₁ c₂ : String} {old : Option PoolRow} :
    u.apply c₂ (u.apply c₁ old) = u.apply c₂ old ↔ u.success = none ∧ ∀ row ∈ old, row.failureGate c₁ = true →
      row.failureGate c₂ = true ∨ (row.lastCheckedAt = some u.latest.checkedAt.text ∧ row.lastCheckOk = some false) := by
  by_cases hsuccess : u.success = none
  · rw [and_iff_right hsuccess]
    cases old with
    | none =>
      refine iff_of_true ?_ fun row hrow => by cases hrow
      simp only [UniqueRow.apply, hsuccess, Option.map_none]
    | some row =>
      have hall : (∀ row' ∈ some row, row'.failureGate c₁ = true → row'.failureGate c₂ = true ∨
          (row'.lastCheckedAt = some u.latest.checkedAt.text ∧ row'.lastCheckOk = some false)) ↔
            (row.failureGate c₁ = true → row.failureGate c₂ = true ∨ row.failedAt u.latest.checkedAt.text = row) := by
        rw [failedAt_eq_iff]
        exact ⟨fun h => h row rfl, fun h row' hrow' => Option.some.inj hrow' ▸ h⟩
      rw [hall, apply_failure hsuccess, apply_failure hsuccess, apply_failure hsuccess]
      cases row.failureGate c₁ with
      | false => simp
      | true =>
        have hagain : (if (row.failedAt u.latest.checkedAt.text).failureGate c₂ = true then
            (row.failedAt u.latest.checkedAt.text).failedAt u.latest.checkedAt.text else row.failedAt u.latest.checkedAt.text) =
              row.failedAt u.latest.checkedAt.text := by
          split <;> rfl
        simp only [if_true, hagain]
        cases row.failureGate c₂ <;> simp
  · refine iff_of_false (fun heq => ?_) fun h => hsuccess h.1
    have htimes := congrArg (Option.map PoolRow.timesSeen) heq
    rw [timesSeen_apply hsuccess, timesSeen_apply hsuccess, timesSeen_apply hsuccess, Option.getD_some] at htimes
    have := Option.some.inj htimes
    omega

end Gwsdb.Store

namespace Gwsdb.Web

open Gwsdb.Store
open Chunks (chunks)

/-! ## The statement -/

/-- The clock readings of an attempt: for the inserts and for the pool update. -/
structure Readings where
  insertAt : Int
  poolAt : Int

/-- The same checks, and the same pool rows but for `revision` and `history_count`. -/
structure Alike (db db' : Database) : Prop where
  checks : db.checks = db'.checks
  pool : ∀ ip, (db.pool.get? ip).map PoolRow.lasting = (db'.pool.get? ip).map PoolRow.lasting

/-- Whether a second attempt lets the rows of an IP in. Where the first one reported a failure of the IP, the pool row tells that
failure. -/
def letsInAgain (db : Database) (t₁ t₂ : Readings) (rows : List CheckRow) (n : Nat) (ip : String) : Bool :=
  rows.any (fun row => row.ok && decide (row.ip = ip)) ||
    (db.pool.get? ip).any fun row =>
      match (updatedRows rows n).find? fun u => u.latest.ip = ip with
      | some u =>
        if row.failureGate (dedupCutoff t₁.poolAt) then decide (u.latest.checkedAt.text < dedupCutoff t₂.insertAt)
        else row.failureGate (dedupCutoff t₂.insertAt)
      | none => row.failureGate (dedupCutoff t₂.insertAt)

/-- The rows of the first attempt's insert chunks whose time is new, without repetitions. -/
def newRows (db : Database) (rows : List CheckRow) (n : Nat) : List NewCheck :=
    db.checks.fresh ((insertedRows rows n).map CheckRow.stored)

/-- The condition, for a first attempt of `n` calls: it reported no success; where it reported a failure, a single attempt would
have reported it too, or the pool row told the same before; each new row is let in by a single attempt exactly if the first
attempt or the second lets it in; and none that only the second lets in stands before one that the first lets in. -/
structure Retryable (db : Database) (t₁ t₂ : Readings) (rows : List CheckRow) (n : Nat) : Prop where
  failures : ∀ u ∈ updatedRows rows n, u.success = none
  reported : ∀ u ∈ updatedRows rows n, ∀ row ∈ db.pool.get? u.latest.ip, row.failureGate (dedupCutoff t₁.poolAt) = true →
    row.failureGate (dedupCutoff t₂.poolAt) = true ∨
      (row.lastCheckedAt = some u.latest.checkedAt.text ∧ row.lastCheckOk = some false)
  letIn : ∀ r ∈ newRows db rows n, db.letsIn (dedupCutoff t₂.insertAt) rows r.ip =
    (db.letsIn (dedupCutoff t₁.insertAt) rows r.ip || letsInAgain db t₁ t₂ rows n r.ip)
  order : (newRows db rows n).Pairwise fun r r' => db.letsIn (dedupCutoff t₁.insertAt) rows r'.ip = true →
    letsInAgain db t₁ t₂ rows n r.ip = true → db.letsIn (dedupCutoff t₁.insertAt) rows r.ip = true

/-! ## The pool -/

/-- The rows updated first are among the rows. -/
theorem updatedRows_subset {rows : List CheckRow} {n : Nat} {u : UniqueRow} (h : u ∈ updatedRows rows n) : u ∈ uniqueRows rows :=
  List.mem_of_mem_take h

/-- The pool after the two attempts is that after one exactly when the first attempt's entries bear repetition. -/
theorem pool_alike_iff {db db₁ db₂ db' : Database} {t₁ t₂ : Readings} {rows : List CheckRow} {n : Nat}
    (h₁ : Attempted db db₁ t₁.insertAt t₁.poolAt rows (insertedRows rows n) (updatedRows rows n))
    (h₂ : Attempted db₁ db₂ t₂.insertAt t₂.poolAt rows rows (uniqueRows rows))
    (h' : Attempted db db' t₂.insertAt t₂.poolAt rows rows (uniqueRows rows)) :
    (∀ ip, (db₂.pool.get? ip).map PoolRow.lasting = (db'.pool.get? ip).map PoolRow.lasting) ↔
      ∀ u ∈ updatedRows rows n, u.apply (dedupCutoff t₂.poolAt) (u.apply (dedupCutoff t₁.poolAt)
        ((db.pool.get? u.latest.ip).map PoolRow.lasting)) =
          u.apply (dedupCutoff t₂.poolAt) ((db.pool.get? u.latest.ip).map PoolRow.lasting) := by
  constructor
  · intro h u hu
    rw [← h₁.applied u hu, ← h₂.applied u (updatedRows_subset hu), ← h'.applied u (updatedRows_subset hu)]
    exact h u.latest.ip
  · intro h ip
    by_cases hupdated : ∃ u ∈ updatedRows rows n, u.latest.ip = ip
    · obtain ⟨u, hu, rfl⟩ := hupdated
      rw [h₂.applied u (updatedRows_subset hu), h'.applied u (updatedRows_subset hu), h₁.applied u hu]
      exact h u hu
    · have hfirst := h₁.others ip fun u hu heq => hupdated ⟨u, hu, heq⟩
      by_cases hunique : ∃ u ∈ uniqueRows rows, u.latest.ip = ip
      · obtain ⟨u, hu, rfl⟩ := hunique
        rw [h₂.applied u hu, h'.applied u hu, hfirst]
      · have hothers : ∀ u ∈ uniqueRows rows, u.latest.ip ≠ ip := fun u hu heq => hunique ⟨u, hu, heq⟩
        rw [h₂.others ip hothers, h'.others ip hothers, hfirst]

/-! ## The checks -/

/-- The gate of the second attempt's inserts, from the pool before the first. -/
theorem letsIn_again {db db₁ : Database} {t₁ t₂ : Readings} {rows : List CheckRow} {n : Nat}
    (h₁ : Attempted db db₁ t₁.insertAt t₁.poolAt rows (insertedRows rows n) (updatedRows rows n))
    (hfailures : ∀ u ∈ updatedRows rows n, u.success = none) (ip : String) :
    db₁.letsIn (dedupCutoff t₂.insertAt) rows ip = letsInAgain db t₁ t₂ rows n ip := by
  have hgate : (db₁.pool.get? ip).any (·.failureGate (dedupCutoff t₂.insertAt)) =
      ((db₁.pool.get? ip).map PoolRow.lasting).any (·.failureGate (dedupCutoff t₂.insertAt)) := by
    rw [Option.any_map]
    rfl
  unfold Database.letsIn letsInAgain
  rw [hgate]
  congr 1
  cases hfind : (updatedRows rows n).find? fun u => u.latest.ip = ip with
  | none =>
    rw [h₁.others ip fun u hu heq => by simpa [heq] using List.find?_eq_none.1 hfind u hu, Option.any_map]
    rfl
  | some u =>
    have hip : u.latest.ip = ip := by simpa using List.find?_some hfind
    subst hip
    have hu := List.mem_of_find?_eq_some hfind
    rw [h₁.applied u hu]
    cases db.pool.get? u.latest.ip with
    | none =>
      rw [UniqueRow.apply, hfailures u hu]
      rfl
    | some row =>
      have hfirst : row.lasting.failureGate (dedupCutoff t₁.poolAt) = row.failureGate (dedupCutoff t₁.poolAt) := rfl
      rw [Option.map_some, apply_failure (hfailures u hu), hfirst, Option.any_some, Option.any_some]
      split
      · simp [PoolRow.failureGate, PoolRow.failedAt]
      · rfl

/-- Where the first attempt updated the pool, its inserts were complete. -/
theorem insertedRows_of_updated {rows : List CheckRow} {n : Nat} (h : updatedRows rows n ≠ []) : insertedRows rows n = rows := by
  have hle : (chunks MAX_BATCH rows).length ≤ n := by
    by_contra hlt
    have hzero : n - (chunks MAX_BATCH rows).length = 0 := by omega
    rw [updatedRows, hzero, Nat.mul_zero, List.take_zero] at h
    exact h rfl
  rw [insertedRows, ← Chunks.take_chunks_flatten (by decide), List.take_of_length_le hle, Chunks.chunks_flatten (by decide)]

/-- Before the first pool update the gates are those of the state before. -/
theorem letsInAgain_of_nil {db : Database} {t₁ t₂ : Readings} {rows : List CheckRow} {n : Nat}
    (h : updatedRows rows n = []) (ip : String) :
    letsInAgain db t₁ t₂ rows n ip = db.letsIn (dedupCutoff t₂.insertAt) rows ip := by
  unfold letsInAgain
  rw [h]
  rfl

theorem map_stored_filter (g : String → Bool) (rows : List CheckRow) :
    (rows.filter fun row => g row.ip).map CheckRow.stored = (rows.map CheckRow.stored).filter fun r => g r.ip := by
  rw [List.filter_map]
  rfl

/-- The checks after the two attempts are those after one exactly when the gates let the new rows in alike and in
order. The rows beyond the first attempt's insert chunks meet the gates of the state before. -/
theorem checks_alike_iff {db db₁ db₂ db' : Database} {t₁ t₂ : Readings} {rows : List CheckRow} {n : Nat}
    (h₁ : Attempted db db₁ t₁.insertAt t₁.poolAt rows (insertedRows rows n) (updatedRows rows n))
    (h₂ : Attempted db₁ db₂ t₂.insertAt t₂.poolAt rows rows (uniqueRows rows))
    (h' : Attempted db db' t₂.insertAt t₂.poolAt rows rows (uniqueRows rows))
    (hfailures : ∀ u ∈ updatedRows rows n, u.success = none) :
    db₂.checks = db'.checks ↔
      (∀ r ∈ newRows db rows n, db.letsIn (dedupCutoff t₂.insertAt) rows r.ip =
        (db.letsIn (dedupCutoff t₁.insertAt) rows r.ip || letsInAgain db t₁ t₂ rows n r.ip)) ∧
      (newRows db rows n).Pairwise fun r r' => db.letsIn (dedupCutoff t₁.insertAt) rows r'.ip = true →
        letsInAgain db t₁ t₂ rows n r.ip = true → db.letsIn (dedupCutoff t₁.insertAt) rows r.ip = true := by
  have hall : rows.map CheckRow.stored = (insertedRows rows n).map CheckRow.stored ++
      (rows.drop (MAX_BATCH * n)).map CheckRow.stored := by
    rw [← List.map_append, insertedRows, List.take_append_drop]
  have hrest : (db.checks.freshAfter ((insertedRows rows n).map CheckRow.stored)
    ((rows.drop (MAX_BATCH * n)).map CheckRow.stored)).filter
      (fun r => letsInAgain db t₁ t₂ rows n r.ip) =
        (db.checks.freshAfter ((insertedRows rows n).map CheckRow.stored)
          ((rows.drop (MAX_BATCH * n)).map CheckRow.stored)).filter
          fun r => db.letsIn (dedupCutoff t₂.insertAt) rows r.ip := by
    by_cases hnil : updatedRows rows n = []
    · simp only [letsInAgain_of_nil hnil]
    · have hdrop : rows.drop (MAX_BATCH * n) = [] := by
        have hlength := congrArg List.length (insertedRows_of_updated hnil)
        rw [insertedRows, List.length_take] at hlength
        exact List.drop_eq_nil_of_le (by omega)
      rw [hdrop]
      rfl
  have hagain : (fun row : CheckRow => db₁.letsIn (dedupCutoff t₂.insertAt) rows row.ip) = fun row =>
      letsInAgain db t₁ t₂ rows n row.ip :=
    funext fun row => letsIn_again h₁ hfailures row.ip
  rw [h₂.checks, h₁.checks, h'.checks, hagain, map_stored_filter, map_stored_filter, map_stored_filter, ← List.foldl_append,
    IpChecks.foldl_insert_eq_iff, hall, IpChecks.fresh_again, hrest, IpChecks.fresh_filter,
      IpChecks.fresh_append, List.filter_append,
    ← List.append_assoc, List.append_left_inj]
  exact Sieve.filter_append_filter_eq_iff (Sieve.nodup_sift_first _ _ _)

/-! ## The theorem -/

/-- For any database, any rows, any clock readings and any number of calls of the first attempt: a complete second attempt leaves
what a single one at its readings would have left, exactly when the first attempt can be repeated. -/
theorem retry_idempotent_iff (t₁ t₂ : Readings) (rows : List CheckRow) (n : Nat) (s s₂ s' : Store.Site)
    (h₂ : (ingestRows t₂.insertAt t₂.poolAt rows).run serve
      ((ingestRows t₁.insertAt t₁.poolAt rows).runFor serve n s) = (.ok (), s₂))
    (h' : (ingestRows t₂.insertAt t₂.poolAt rows).run serve s = (.ok (), s')) :
    Alike s₂.db s'.db ↔ Retryable s.db t₁ t₂ rows n := by
  obtain ⟨hbinds, hsingle⟩ := run_ingestRows_attempted h'
  have hfirst := runFor_ingestRows_attempted hbinds t₁.insertAt t₁.poolAt n s
  have hsecond := (run_ingestRows_attempted h₂).2
  have hpool := pool_alike_iff hfirst hsecond hsingle
  constructor
  · rintro ⟨hchecks, halike⟩
    have hentries := fun u hu => apply_twice_iff.1 (hpool.1 halike u hu)
    have hfailures : ∀ u ∈ updatedRows rows n, u.success = none := fun u hu => (hentries u hu).1
    obtain ⟨hlet, horder⟩ := (checks_alike_iff hfirst hsecond hsingle hfailures).1 hchecks
    refine ⟨hfailures, fun u hu row hrow hgate => ?_, hlet, horder⟩
    exact (hentries u hu).2 row.lasting (Option.mem_map_of_mem _ hrow) hgate
  · rintro ⟨hfailures, hreported, hlet, horder⟩
    refine ⟨(checks_alike_iff hfirst hsecond hsingle hfailures).2 ⟨hlet, horder⟩, hpool.2 fun u hu => ?_⟩
    refine apply_twice_iff.2 ⟨hfailures u hu, fun row hrow hgate => ?_⟩
    obtain ⟨row', hrow', rfl⟩ := Option.map_eq_some_iff.1 hrow
    exact hreported u hu row' hrow' hgate

/-! ## A success -/

/-- A body with a success. -/
def successBody : IngestBody :=
  ⟨some [⟨some "8.8.8.8", true, some 10, none, none, some 1756706400000, .text "SNI"⟩], some false, some (some [])⟩

/-- Its row. -/
def successRow : CheckRow := ⟨"8.8.8.8", true, some 10, none, none, some 1756706400000, .text "SNI"⟩

/-- A first attempt that stopped before the pool update can be repeated. -/
theorem retry_idempotent_inserted : ∃ s₂ s',
    (ingestRows 1756706402000 1756706402000 [successRow]).run serve
      ((ingestRows 1756706401000 1756706401000 [successRow]).runFor serve 1 emptySite) = (.ok (), s₂) ∧
    (ingestRows 1756706402000 1756706402000 [successRow]).run serve emptySite = (.ok (), s') ∧ Alike s₂.db s'.db := by
  obtain ⟨s₂, s', h₂, h'⟩ : ∃ s₂ s',
      (ingestRows 1756706402000 1756706402000 [successRow]).run serve
        ((ingestRows 1756706401000 1756706401000 [successRow]).runFor serve 1 emptySite) = (.ok (), s₂) ∧
      (ingestRows 1756706402000 1756706402000 [successRow]).run serve emptySite = (.ok (), s') := ⟨_, _, rfl, rfl⟩
  refine ⟨s₂, s', h₂, h', ?_⟩
  refine (retry_idempotent_iff ⟨1756706401000, 1756706401000⟩ ⟨1756706402000, 1756706402000⟩
    [successRow] 1 emptySite s₂ s' h₂ h').2 ?_
  exact ⟨by decide +kernel, by decide +kernel, by decide +kernel, by decide +kernel⟩

/-- A first attempt that completed counts its success, and the second counts it again. -/
theorem success_counted_twice : ¬∀ (t₁ t₂ : Readings) (body : IngestBody) (rows : List CheckRow)
    (pruneIPs : Option (List String)) (n : Nat)
    (s s₂ s' : Store.Site), readIngest body = .ok (rows, pruneIPs) →
    (ingestRows t₂.insertAt t₂.poolAt rows).run serve ((ingestRows t₁.insertAt t₁.poolAt rows).runFor serve n s) = (.ok (), s₂) →
    (ingestRows t₂.insertAt t₂.poolAt rows).run serve s = (.ok (), s') → Alike s₂.db s'.db := by
  intro h
  obtain ⟨s₂, s', h₂, h', htwice, honce⟩ : ∃ s₂ s',
      (ingestRows 1756706402000 1756706402000 [successRow]).run serve
        ((ingestRows 1756706401000 1756706401000 [successRow]).runFor serve 2 emptySite) = (.ok (), s₂) ∧
      (ingestRows 1756706402000 1756706402000 [successRow]).run serve emptySite = (.ok (), s') ∧
      (s₂.db.pool.get? "8.8.8.8").map PoolRow.timesSeen = some 2 ∧ (s'.db.pool.get? "8.8.8.8").map PoolRow.timesSeen = some 1 :=
    ⟨_, _, rfl, rfl, by decide +kernel, by decide +kernel⟩
  have hread : readIngest successBody = .ok ([successRow], some []) := by decide +kernel
  have halike := (h ⟨1756706401000, 1756706401000⟩ ⟨1756706402000, 1756706402000⟩ successBody
    [successRow] (some []) 2 emptySite s₂ s'
    hread h₂ h').pool "8.8.8.8"
  have htimes := congrArg (Option.map PoolRow.timesSeen) halike
  rw [Option.map_map, Option.map_map] at htimes
  have hsame : some 2 = some 1 := htwice.symm.trans (htimes.trans honce)
  cases hsame

end Gwsdb.Web
