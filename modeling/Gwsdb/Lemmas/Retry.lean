import Gwsdb.Lemmas.Visits

/-!
# An attempt to store a batch, complete or cut

What `ingestRows` makes of the tables, run to its end or stopped after some of its calls: the rows of its insert chunks come in
where their IP is let in, and the entries of its pool chunks are applied to their pool rows (`Attempted`).
-/

namespace Gwsdb.Store

open Chunks (chunks)
open Interleave (Prog)

/-! ## Rows inserted one after the other -/

/-- What the unique index is on. -/
def NewCheck.key (row : NewCheck) : String × String := (row.ip, row.checkedAt)

namespace IpChecks

/-- A table has a key where one of its rows has it. -/
theorem hasKey_iff_key {t : IpChecks} {row : NewCheck} : t.HasKey row ↔ ∃ r ∈ t.rows.map (·.toNewCheck), r.key = row.key := by
  unfold HasKey NewCheck.key
  simp only [List.mem_map, exists_exists_and_eq_and, Prod.mk.injEq]

/-- Only the key of a row matters. -/
theorem hasKey_congr {t : IpChecks} {r r' : NewCheck} (h : r.key = r'.key) : t.HasKey r ↔ t.HasKey r' := by
  rw [hasKey_iff_key, hasKey_iff_key, h]

/-- The rows after an insert, without their ids. -/
theorem rows_insert (t : IpChecks) (row : NewCheck) :
    (t.insert row).rows.map (·.toNewCheck) = t.rows.map (·.toNewCheck) ++ if t.HasKey row then [] else [row] := by
  by_cases h : t.HasKey row
  · rw [insert_of_hasKey h, if_pos h, List.append_nil]
  · rw [insert_of_not_hasKey h, if_neg h]
    exact List.map_append

/-- After an insert the key of the row is there. -/
theorem hasKey_insert {t : IpChecks} {row r : NewCheck} : (t.insert row).HasKey r ↔ t.HasKey r ∨ row.key = r.key := by
  rw [hasKey_iff_key, rows_insert]
  split
  · rename_i h
    rw [List.append_nil, ← hasKey_iff_key]
    exact ⟨Or.inl, fun hor => hor.elim id fun heq => (hasKey_congr heq).1 h⟩
  · simp only [List.mem_append, List.mem_singleton, or_and_right, exists_or, exists_eq_left]
    rw [← hasKey_iff_key]

/-- After several the keys of all of them are. -/
theorem hasKey_foldl_insert {t : IpChecks} {rows : List NewCheck} {row : NewCheck} :
    (rows.foldl insert t).HasKey row ↔ t.HasKey row ∨ ∃ r ∈ rows, r.key = row.key := by
  induction rows generalizing t with
  | nil => simp
  | cons r rows ih =>
    rw [List.foldl_cons, ih, hasKey_insert, or_assoc]
    simp only [List.mem_cons, exists_eq_or_imp]

/-- Of rows inserted one after the other, those that come in: the first of each key that is not there. -/
def fresh (t : IpChecks) (rows : List NewCheck) : List NewCheck :=
    Sieve.sift (Sieve.first (fun r => decide ¬t.HasKey r) NewCheck.key) rows

/-- A row is the first of a new key exactly when its key is not there once those before it are inserted. -/
theorem first_iff_not_hasKey {t : IpChecks} {rows : List NewCheck} {row : NewCheck} :
    Sieve.first (fun r => decide ¬t.HasKey r) NewCheck.key rows row = true ↔ ¬(rows.foldl insert t).HasKey row := by
  rw [Sieve.first_iff, hasKey_foldl_insert, not_or, decide_eq_true_iff]
  refine and_congr_right fun hnew => not_congr (exists_congr fun r => and_congr_right fun _ => ?_)
  rw [decide_eq_true_iff]
  exact ⟨And.right, fun heq => ⟨fun h => hnew ((hasKey_congr heq).1 h), heq⟩⟩

/-- Inserts append the fresh rows. -/
theorem rows_foldl_insert (t : IpChecks) (rows : List NewCheck) :
    (rows.foldl insert t).rows.map (·.toNewCheck) = t.rows.map (·.toNewCheck) ++ t.fresh rows := by
  induction rows using List.reverseRecOn with
  | nil => simp [fresh]
  | append_singleton rows row ih =>
    rw [List.foldl_append, List.foldl_cons, List.foldl_nil, rows_insert, ih, fresh, fresh, Sieve.sift_concat, List.append_assoc]
    by_cases h : (rows.foldl insert t).HasKey row
    · rw [if_pos h, if_neg fun hfirst => first_iff_not_hasKey.1 hfirst h]
    · rw [if_neg h, if_pos (first_iff_not_hasKey.2 h)]

/-- Inserting the fresh rows only leaves the same table. -/
theorem foldl_insert_fresh (t : IpChecks) (rows : List NewCheck) : (t.fresh rows).foldl insert t = rows.foldl insert t := by
  induction rows using List.reverseRecOn with
  | nil => rfl
  | append_singleton rows row ih =>
    rw [fresh] at ih ⊢
    rw [Sieve.sift_concat, List.foldl_append, List.foldl_append, ih, List.foldl_cons, List.foldl_nil]
    by_cases h : (rows.foldl insert t).HasKey row
    · rw [if_neg fun hfirst => first_iff_not_hasKey.1 hfirst h, insert_of_hasKey h, List.foldl_nil]
    · rw [if_pos (first_iff_not_hasKey.2 h), List.foldl_cons, List.foldl_nil]

/-- Inserts make the same table exactly when the same rows come in. -/
theorem foldl_insert_eq_iff {t : IpChecks} {rows rows' : List NewCheck} :
    rows.foldl insert t = rows'.foldl insert t ↔ t.fresh rows = t.fresh rows' := by
  constructor
  · intro h
    have heq : t.rows.map (·.toNewCheck) ++ t.fresh rows = t.rows.map (·.toNewCheck) ++ t.fresh rows' := by
      rw [← rows_foldl_insert, ← rows_foldl_insert, h]
    exact List.append_cancel_left heq
  · intro h
    rw [← foldl_insert_fresh t rows, h, foldl_insert_fresh]

/-- A fresh row is one of the rows, and its key is new. -/
theorem mem_of_mem_fresh {t : IpChecks} {rows : List NewCheck} {row : NewCheck} (h : row ∈ t.fresh rows) :
    row ∈ rows ∧ ¬t.HasKey row := by
  refine ⟨Sieve.mem_of_mem_sift h, ?_⟩
  obtain ⟨before, after, -, hfirst⟩ := Sieve.mem_sift.1 h
  exact of_decide_eq_true (Sieve.first_iff.1 hfirst).1

/-- Rows of some IPs that come in. -/
theorem fresh_filter (t : IpChecks) (g : String → Bool) (rows : List NewCheck) :
    t.fresh (rows.filter fun r => g r.ip) = (t.fresh rows).filter fun r => g r.ip :=
  Sieve.sift_first_filter (fun _ _ h => congrArg g (Prod.mk.inj h).1) rows

/-- Of rows inserted after others, those that come in. -/
def freshAfter (t : IpChecks) (before rows : List NewCheck) : List NewCheck :=
  (t.fresh rows).filter fun r => !before.any fun r' => decide (¬t.HasKey r') && decide (r'.key = r.key)

theorem fresh_append (t : IpChecks) (rows rows' : List NewCheck) :
    t.fresh (rows ++ rows') = t.fresh rows ++ t.freshAfter rows rows' :=
  Sieve.sift_first_append _ _ _ _

/-- Rows of some IPs inserted, and then these and more of other IPs: what comes in. -/
theorem fresh_again (t : IpChecks) (g₁ g₂ : String → Bool) (rows rows' : List NewCheck) :
    t.fresh ((rows.filter fun r => g₁ r.ip) ++ (rows ++ rows').filter fun r => g₂ r.ip) =
      ((t.fresh rows).filter fun r => g₁ r.ip) ++ (((t.fresh rows).filter fun r => g₂ r.ip && !g₁ r.ip) ++
        (t.freshAfter rows rows').filter fun r => g₂ r.ip) := by
  have hagain : ∀ r ∈ t.fresh rows, ((rows.filter fun r => g₁ r.ip).any fun r' =>
    decide (¬t.HasKey r') && decide (r'.key = r.key)) =
      g₁ r.ip := by
    intro r hr
    obtain ⟨hmem, hnew⟩ := mem_of_mem_fresh hr
    rw [Bool.eq_iff_iff, List.any_eq_true]
    constructor
    · rintro ⟨r', hr', heq⟩
      obtain ⟨-, hkey⟩ := Bool.and_eq_true_iff.1 heq
      rw [← (Prod.mk.inj (of_decide_eq_true hkey)).1]
      exact (List.mem_filter.1 hr').2
    · intro hg
      exact ⟨r, List.mem_filter.2 ⟨hmem, hg⟩, by simp [hnew]⟩
  have hmore : ∀ r ∈ t.freshAfter rows rows',
      ((rows.filter fun r => g₁ r.ip).any fun r' => decide (¬t.HasKey r') && decide (r'.key = r.key)) = false := by
    intro r hr
    have hnone := (List.mem_filter.1 hr).2
    rw [Bool.not_eq_true', List.any_eq_false] at hnone
    exact List.any_eq_false.2 fun r' hr' => hnone r' (List.mem_of_mem_filter hr')
  rw [fresh_append, fresh_filter, freshAfter, fresh_filter, fresh_append, List.filter_append,
    List.filter_append, List.filter_filter,
    List.filter_filter]
  congr 2
  · refine List.filter_congr fun r hr => ?_
    rw [hagain r hr, Bool.and_comm]
  · refine List.filter_congr fun r hr => ?_
    rw [hmore r hr]
    rfl

end IpChecks

/-! ## The rows of a batch -/

/-- What is stored of a row that can be bound. -/
def CheckRow.stored (row : CheckRow) : NewCheck :=
  ⟨row.ip, row.ok, row.rttMs, row.reason, row.detail, row.checkedAt.text, row.scanMode.bind.toOption.getD none⟩

/-- The statement of a row inserts the row as it is stored. -/
theorem insertCheckStmt_stored {ips : List String} {cutoff : String} {row : CheckRow} {stmt : Stmt}
    (h : insertCheckStmt ips cutoff row = .ok stmt) : stmt.inserted? = some row.stored := by
  obtain ⟨checkedAt, scanMode, hat, hmode, rfl⟩ := insertCheckStmt_ok h
  rw [Stmt.inserted?, CheckRow.stored, text_of_ok hat, hmode]
  rfl

/-- Statements bound from rows of a batch insert the rows of the IPs that the batch lets in. -/
theorem after_bound {cutoff : String} {all rows : List CheckRow} (hall : ∀ row ∈ rows, row ∈ all) {stmts : List Stmt}
    (h : List.Forall₂ (fun row stmt => insertCheckStmt ((all.filter (·.ok)).map (·.ip)) cutoff row = .ok stmt) rows stmts)
    (db : Database) :
    db.after stmts =
      { db with
        checks := ((rows.filter fun row => db.letsIn cutoff all row.ip).map CheckRow.stored).foldl IpChecks.insert
          db.checks } := by
  induction h generalizing db with
  | nil => rfl
  | @cons row stmt rows stmts hrow _ ih =>
    have hrest : ∀ r ∈ rows, r ∈ all := fun r hr => hall r (List.mem_cons_of_mem _ hr)
    rw [Database.after_cons, Database.exec_insert_eq db (insertCheckStmt_stored hrow),
      opens_bound db (hall row List.mem_cons_self) hrow,
      ih hrest]
    cases hlets : db.letsIn cutoff all row.ip with
    | false =>
      rw [if_neg Bool.false_ne_true, List.filter_cons_of_neg (by simp [hlets])]
    | true =>
      rw [if_pos rfl, List.filter_cons_of_pos (by simpa using hlets)]
      rfl

/-! ## The entries of a batch -/

/-- The columns of a pool row but `revision` and `history_count`. -/
def PoolRow.lasting (row : PoolRow) : PoolRow := { row with revision := 0, historyCount := 0 }

/-- What the pool statement of an entry makes of these columns. -/
def UniqueRow.apply (u : UniqueRow) (cutoff : String) (old : Option PoolRow) : Option PoolRow :=
  match u.success with
  | some success => some (PoolSuccess.upsert
    ⟨u.latest.ip, u.latest.ip.toList.contains ':', success.scanMode.bind.toOption.getD none,
      success.checkedAt.text, success.rttMs.getD 0,
      u.latest.checkedAt.text, u.latest.ok⟩ 0 (fun _ => 0) old)
  | none => old.map fun row =>
    if row.failureGate cutoff then { row with lastCheckedAt := some u.latest.checkedAt.text, lastCheckOk := some false } else row

/-- The statement of an entry does to a pool row what the entry does. -/
theorem apply_of_bound {cutoff : String} {u : UniqueRow} {stmt : Stmt} (h : poolStmt cutoff u = .ok stmt) (db : Database)
    (old : Option PoolRow) (v : Nat) :
    (((db.rewrite stmt old).map fun row => { row with revision := v }).or old).map PoolRow.lasting =
      u.apply cutoff (old.map PoolRow.lasting) := by
  obtain ⟨latestTS, hlatest, ⟨hsuccess, rfl⟩ | ⟨success, successTS, scanMode, hsuccess, hts, hmode, rfl⟩⟩ := poolStmt_ok h
  · rw [UniqueRow.apply, hsuccess, text_of_ok hlatest]
    cases old with
    | none => rfl
    | some row =>
      have hgate : row.lasting.failureGate cutoff = row.failureGate cutoff := rfl
      simp only [Database.rewrite, Option.map_some, hgate]
      cases hopen : row.failureGate cutoff with
      | false =>
        rw [Option.filter_some, if_neg (by simp [hopen])]
        rfl
      | true =>
        rw [Option.filter_some, if_pos hopen]
        rfl
  · rw [UniqueRow.apply, hsuccess]
    simp only [text_of_ok hlatest, text_of_ok hts, hmode]
    cases old <;> rfl

/-- What an attempt to store a batch made of the tables: `rows` are the rows of its inserts, `us` the
entries of its pool updates. -/
structure Attempted (db db' : Database) (insertAt poolAt : Int) (all rows : List CheckRow) (us : List UniqueRow) : Prop where
  checks : db'.checks =
    ((rows.filter fun row => db.letsIn (dedupCutoff insertAt) all row.ip).map CheckRow.stored).foldl IpChecks.insert db.checks
  applied : ∀ u ∈ us, (db'.pool.get? u.latest.ip).map PoolRow.lasting =
    u.apply (dedupCutoff poolAt) ((db.pool.get? u.latest.ip).map PoolRow.lasting)
  others : ∀ ip, (∀ u ∈ us, u.latest.ip ≠ ip) → (db'.pool.get? ip).map PoolRow.lasting = (db.pool.get? ip).map PoolRow.lasting

/-- The chunks of an attempt, executed. -/
theorem attempted_of_chunks {insertAt poolAt : Int} {all : List CheckRow}
    {rowChunks : List (List CheckRow)} {us : List (List UniqueRow)}
    {inserts updates : List (List Stmt)} (hall : ∀ row ∈ rowChunks.flatten, row ∈ all)
    (hinserts : List.Forall₂ (List.Forall₂ fun row stmt =>
      insertCheckStmt ((all.filter (·.ok)).map (·.ip)) (dedupCutoff insertAt) row = .ok stmt) rowChunks inserts)
    (hpair : us.flatten.Pairwise fun u v => u.latest.ip ≠ v.latest.ip)
    (hupdates : List.Forall₂ (List.Forall₂ fun u stmt => poolStmt (dedupCutoff poolAt) u = .ok stmt) us updates) (db : Database) :
    Attempted db ((db.after (inserts.flatMap id)).after (updates.flatMap (.bumpPoolRevision :: ·)))
      insertAt poolAt all rowChunks.flatten
      us.flatten := by
  have hflat : inserts.flatMap id = inserts.flatten := List.flatMap_id
  rw [hflat, after_bound hall (forall₂_flatten hinserts)]
  refine ⟨after_poolChunks_checks hupdates _, fun u hu => ?_, fun ip hip => ?_⟩
  · obtain ⟨stmt, v, hstmt, -, hget⟩ := after_poolChunks hpair hupdates
      { db with checks := _ } hu
    rw [hget]
    exact apply_of_bound hstmt _ _ v
  · rw [(after_pool_frame (foreign_of_chunks hupdates hip) _).2.1]

/-! ## Attempts -/

/-- A chunked writer with something after it, stopped after some of its calls. -/
theorem runFor_chunks_bind {α β γ : Type} {bind : α → Except String β} (statements : List β → List Stmt) {l : List (List α)}
    {bounds : List (List β)} (h : List.Forall₂ (List.Forall₂ fun a b => bind a = .ok b) l bounds)
    (f : PUnit → Program γ) (n : Nat)
    (s : Site) :
    ((l.forM fun chunk => do
      let bound ← Prog.ofExcept (chunk.mapM bind)
      let _ ← perform (.batch (statements bound)) : Program PUnit) >>= f).runFor serve n s =
        (f ()).runFor serve (n - l.length) { s with db := s.db.after ((bounds.take n).flatMap statements) } := by
  induction h generalizing n s with
  | nil => simp
  | @cons chunk bound l bounds hchunk _ ih =>
    cases n with
    | zero => simp
    | succ n =>
      have hmap : chunk.mapM bind = .ok bound := Interleave.mapM_ok_iff.2 hchunk
      have hstep : (((chunk :: l).forM fun chunk => do
          let bound ← Prog.ofExcept (chunk.mapM bind)
          let _ ← perform (.batch (statements bound)) : Program PUnit) >>= f) = .call (.batch (statements bound)) fun _ =>
            (l.forM fun chunk => do
              let bound ← Prog.ofExcept (chunk.mapM bind)
              let _ ← perform (.batch (statements bound)) : Program PUnit) >>= f := by
        rw [List.forM, hmap]
        rfl
      rw [hstep, Prog.runFor_call_succ, ih n, List.length_cons, Nat.add_sub_add_right, List.take_succ_cons, List.flatMap_cons,
        Database.after_append]
      simp only [serve, Database.batch_snd]

theorem exists_forall₂ {α β : Type} {R : α → β → Prop} {l : List α} (h : ∀ a ∈ l, ∃ b, R a b) : ∃ bs, List.Forall₂ R l bs := by
  induction l with
  | nil => exact ⟨[], List.Forall₂.nil⟩
  | cons a l ih =>
    obtain ⟨b, hb⟩ := h a List.mem_cons_self
    obtain ⟨bs, hbs⟩ := ih fun a ha => h a (List.mem_cons_of_mem _ ha)
    exact ⟨b :: bs, List.Forall₂.cons hb hbs⟩

/-- The bound values of chunks. -/
theorem exists_bounds {α β : Type} (size : Nat) (hsize : 0 < size) {R : α → β → Prop} {l : List α} (h : ∀ a ∈ l, ∃ b, R a b) :
    ∃ bounds, List.Forall₂ (List.Forall₂ R) (chunks size l) bounds :=
  exists_forall₂ fun _ hc => exists_forall₂ fun a ha => h a (Chunks.mem_of_mem_chunks hsize hc ha)

end Gwsdb.Store

namespace Gwsdb.Web

open Gwsdb.Store
open Chunks (chunks)
open Interleave (Prog)

/-- An attempt run to its end. -/
theorem run_ingestRows_attempted {insertAt poolAt : Int} {rows : List CheckRow} {s s' : Store.Site} {u : Unit}
    (h : (ingestRows insertAt poolAt rows).run serve s = (.ok u, s')) :
    (∀ row ∈ rows, row.Binds) ∧ Attempted s.db s'.db insertAt poolAt rows rows (uniqueRows rows) := by
  obtain ⟨_, s₁, h₁, h₂⟩ := Prog.run_bind_ok h
  refine ⟨binds_of_run h₁, ?_⟩
  obtain ⟨inserts, hinserts, rfl⟩ := run_inChunks_ok h₁
  obtain ⟨updates, hupdates, rfl⟩ := run_inChunks_ok h₂
  have hrows : (chunks MAX_BATCH rows).flatten = rows := Chunks.chunks_flatten (by decide) rows
  have hus : (chunks POOL_UPSERT_CHUNK (uniqueRows rows)).flatten = uniqueRows rows := Chunks.chunks_flatten (by decide) _
  have hattempted := attempted_of_chunks (by rw [hrows]; exact fun _ hr => hr) hinserts
    (by rw [hus]; exact uniqueRows_pairwise rows) hupdates s.db
  rw [hrows, hus] at hattempted
  exact hattempted

/-- The rows in the insert chunks among the first `n` calls of an attempt. -/
def insertedRows (rows : List CheckRow) (n : Nat) : List CheckRow := rows.take (MAX_BATCH * n)

/-- The entries in the pool chunks among them. -/
def updatedRows (rows : List CheckRow) (n : Nat) : List UniqueRow :=
  (uniqueRows rows).take (POOL_UPSERT_CHUNK * (n - (chunks MAX_BATCH rows).length))

/-- An attempt stopped after `n` calls, or run to its end if it makes fewer. -/
theorem runFor_ingestRows_attempted {rows : List CheckRow} (hbinds : ∀ row ∈ rows, row.Binds) (insertAt poolAt : Int) (n : Nat)
    (s : Store.Site) : Attempted s.db ((ingestRows insertAt poolAt rows).runFor serve n s).db insertAt
      poolAt rows (insertedRows rows n)
      (updatedRows rows n) := by
  obtain ⟨inserts, hinserts⟩ := exists_bounds MAX_BATCH (by decide) fun row hrow =>
    exists_insertCheckStmt (hbinds row hrow) ((rows.filter (·.ok)).map (·.ip)) (dedupCutoff insertAt)
  obtain ⟨updates, hupdates⟩ := exists_bounds POOL_UPSERT_CHUNK (by decide) fun u hu =>
    exists_poolStmt hbinds hu (dedupCutoff poolAt)
  have hrun : ((ingestRows insertAt poolAt rows).runFor serve n s).db =
      (s.db.after ((inserts.take n).flatMap id)).after
        ((updates.take (n - (chunks MAX_BATCH rows).length)).flatMap (.bumpPoolRevision :: ·)) := by
    have hinsert := runFor_chunks_bind id hinserts (fun _ => updatePoolBatch poolAt rows) n s
    have hupdate := runFor_chunks_bind (.bumpPoolRevision :: ·) hupdates Prog.ret (n - (chunks MAX_BATCH rows).length)
      { s with db := s.db.after ((inserts.take n).flatMap id) }
    rw [Prog.bind_ret, Prog.runFor_ret] at hupdate
    exact congrArg Store.Site.db (hinsert.trans hupdate)
  rw [hrun]
  have hrows : ((chunks MAX_BATCH rows).take n).flatten = insertedRows rows n := Chunks.take_chunks_flatten (by decide) rows n
  have hus : ((chunks POOL_UPSERT_CHUNK (uniqueRows rows)).take (n - (chunks MAX_BATCH rows).length)).flatten =
      updatedRows rows n :=
    Chunks.take_chunks_flatten (by decide) _ _
  have hattempted := attempted_of_chunks (by rw [hrows]; exact fun _ hr => List.mem_of_mem_take hr) (List.forall₂_take n hinserts)
    (by rw [hus]; exact (uniqueRows_pairwise rows).sublist (List.take_sublist _ _)) (List.forall₂_take _ hupdates) s.db
  rw [hrows, hus] at hattempted
  exact hattempted

end Gwsdb.Web
