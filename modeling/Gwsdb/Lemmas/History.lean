import Gwsdb.Lib.Ranked
import Gwsdb.Lemmas.Statements
import Gwsdb.Store.Site

/-!
# The history of an IP

The rows of an IP, newest first, and how inserts and deletions change them. Row numbers are ranks in this order, so a
prune leaves the first rows of it.
-/

namespace Gwsdb.Store

open Keyed (Table)

/-! ## The order of the rows -/

namespace IpCheck

instance : IsTrans IpCheck Newer where
  trans := by
    intro a b c hab hbc
    rcases hab with hab | ⟨hab, hid⟩
    · rcases hbc with hbc | ⟨hbc, -⟩
      · exact Or.inl (hbc.trans hab)
      · exact Or.inl (hbc ▸ hab)
    · rcases hbc with hbc | ⟨hbc, hid'⟩
      · exact Or.inl (hab ▸ hbc)
      · exact Or.inr ⟨hbc.trans hab, hid'.trans hid⟩

instance : Std.Asymm Newer where
  asymm := by
    intro a b hab hba
    rcases hab with hab | ⟨hab, hid⟩ <;> rcases hba with hba | ⟨hba, hid'⟩
    · exact lt_asymm hab hba
    · exact absurd hab (hba ▸ lt_irrefl _)
    · exact absurd hba (hab ▸ lt_irrefl _)
    · exact lt_asymm hid hid'

/-- Of two rows with different ids, one is newer. -/
theorem newer_or_newer {a b : IpCheck} (h : a.id ≠ b.id) : a.Newer b ∨ b.Newer a := by
  rcases lt_trichotomy a.checkedAt b.checkedAt with hlt | heq | hgt
  · exact Or.inr (Or.inl hlt)
  · rcases Nat.lt_or_gt_of_ne h with hid | hid
    · exact Or.inr (Or.inr ⟨heq, hid⟩)
    · exact Or.inl (Or.inr ⟨heq.symm, hid⟩)
  · exact Or.inl (Or.inl hgt)

end IpCheck

namespace IpChecks

/-! ## The rows of an IP -/

/-- The history of an IP is its rows. -/
theorem mem_of {t : IpChecks} {ip : String} {r : IpCheck} : r ∈ t.of ip ↔ r ∈ t.rows ∧ r.ip = ip := by
  rw [of, List.mem_filter, decide_eq_true_eq]

/-- The rows of an IP can be compared. -/
theorem of_comparable (t : IpChecks) (ip : String) : (t.of ip).Pairwise fun a b => a.Newer b ∨ b.Newer a :=
  (t.ascending.sublist List.filter_sublist).imp fun h => IpCheck.newer_or_newer h.ne

/-- The row an insert appends. -/
def next (t : IpChecks) (row : NewCheck) : IpCheck := { row with id := t.maxId + 1 }

/-- A row whose IP and time are there is dropped. -/
theorem insert_of_hasKey {t : IpChecks} {row : NewCheck} (h : t.HasKey row) : t.insert row = t := dif_pos h

/-- Any other is appended. -/
theorem insert_of_not_hasKey {t : IpChecks} {row : NewCheck} (h : ¬t.HasKey row) : t.insert row = t.append row h := dif_neg h

/-- After an insert a row was there before, or is the new one. -/
theorem mem_insert {t : IpChecks} {row : NewCheck} {r : IpCheck} (h : r ∈ (t.insert row).rows) :
    r ∈ t.rows ∨ ¬t.HasKey row ∧ r = t.next row := by
  by_cases hkey : t.HasKey row
  · rw [insert_of_hasKey hkey] at h
    exact Or.inl h
  · rw [insert_of_not_hasKey hkey] at h
    rcases List.mem_append.1 h with h | h
    · exact Or.inl h
    · exact Or.inr ⟨hkey, List.mem_singleton.1 h⟩

/-- The history after a row was appended. -/
theorem append_of {t : IpChecks} {row : NewCheck} (h : ¬t.HasKey row) (ip : String) :
    (t.append row h).of ip = if row.ip = ip then t.of ip ++ [t.next row] else t.of ip := by
  have hrows : (t.append row h).rows = t.rows ++ [t.next row] := rfl
  rw [of, hrows, List.filter_append]
  split
  · rename_i hip
    have hnext : (t.next row).ip = ip := hip
    rw [List.filter_cons_of_pos (by simpa using hnext), List.filter_nil]
    rfl
  · rename_i hip
    have hnext : ¬(t.next row).ip = ip := hip
    rw [List.filter_cons_of_neg (by simpa using hnext), List.filter_nil, List.append_nil]
    rfl

/-- A row appended has the next id. -/
theorem maxId_append {t : IpChecks} {row : NewCheck} (h : ¬t.HasKey row) : (t.append row h).maxId = t.maxId + 1 := by
  have hrows : (t.append row h).rows = t.rows ++ [t.next row] := rfl
  rw [maxId, hrows, List.getLast?_concat]
  rfl

theorem filter_of (t : IpChecks) (p : IpCheck → Bool) (ip : String) : (t.filter p).of ip = (t.of ip).filter p :=
  List.filter_comm _ _ _

/-! ## Newest first -/

theorem mem_newestFirst {t : IpChecks} {ip : String} {r : IpCheck} : r ∈ t.newestFirst ip ↔ r ∈ t.rows ∧ r.ip = ip := by
  rw [newestFirst, List.mem_insertionSort, mem_of]

/-- Newest first, each row is newer than those after it. -/
theorem newestFirst_pairwise (t : IpChecks) (ip : String) : (t.newestFirst ip).Pairwise IpCheck.Newer :=
  Ranked.pairwise_insertionSort (t.of_comparable ip)

theorem length_newestFirst (t : IpChecks) (ip : String) : (t.newestFirst ip).length = (t.of ip).length :=
  List.length_insertionSort _ _

/-- An appended row is put where it belongs among the rows of its IP. -/
theorem newestFirst_append {t : IpChecks} {row : NewCheck} (h : ¬t.HasKey row) :
    (t.append row h).newestFirst row.ip = (t.newestFirst row.ip).orderedInsert IpCheck.Newer (t.next row) := by
  have hof := append_of h row.ip
  rw [if_pos rfl] at hof
  have hcomparable := (t.append row h).of_comparable row.ip
  rw [newestFirst, hof]
  rw [hof] at hcomparable
  exact Ranked.insertionSort_append_singleton hcomparable

/-- A row of another IP leaves the order of a history alone. -/
theorem newestFirst_append_ne {t : IpChecks} {row : NewCheck} (h : ¬t.HasKey row) {ip : String} (hip : row.ip ≠ ip) :
    (t.append row h).newestFirst ip = t.newestFirst ip := by
  rw [newestFirst, append_of, if_neg hip]
  rfl

/-- What is deleted is gone from the order, and the rest stands as before. -/
theorem newestFirst_filter (t : IpChecks) (p : IpCheck → Bool) (ip : String) :
    (t.filter p).newestFirst ip = (t.newestFirst ip).filter p := by
  rw [newestFirst, filter_of]
  exact Ranked.insertionSort_filter (t.of_comparable ip) p

/-! ## Pruning -/

/-- A row number is a rank, counted from one. -/
theorem rowNumber_eq (t : IpChecks) (r : IpCheck) : t.rowNumber r = Ranked.rank IpCheck.Newer (t.newestFirst r.ip) r + 1 := by
  rw [rowNumber, newestFirst, Ranked.rank_perm (List.perm_insertionSort _ _)]
  rfl

/-- The rows a prune keeps. -/
def retain (t : IpChecks) (ips : List String) (k : Nat) : IpChecks := t.filter fun r => decide (r.ip ∈ ips → t.rowNumber r ≤ k)

/-- A prune keeps the first `k` rows of the IPs it is for, and all rows of the others. -/
theorem newestFirst_retain (t : IpChecks) (ips : List String) (k : Nat) (ip : String) :
    (t.retain ips k).newestFirst ip = if ip ∈ ips then (t.newestFirst ip).take k else t.newestFirst ip := by
  rw [retain, newestFirst_filter]
  split
  · rename_i hip
    rw [← Ranked.filter_rank_lt (t.newestFirst_pairwise ip) k]
    refine List.filter_congr fun r hr => ?_
    obtain ⟨-, rfl⟩ := mem_newestFirst.1 hr
    rw [rowNumber_eq]
    exact decide_eq_decide.2 ⟨fun h => h hip, fun h _ => h⟩
  · rename_i hip
    refine List.filter_eq_self.2 fun r hr => ?_
    obtain ⟨-, rfl⟩ := mem_newestFirst.1 hr
    exact decide_eq_true fun h => absurd h hip

/-- A prune leaves the first `k` rows of every IP. -/
theorem take_newestFirst_retain (t : IpChecks) (ips : List String) (k : Nat) (ip : String) :
    ((t.retain ips k).newestFirst ip).take k = (t.newestFirst ip).take k := by
  rw [newestFirst_retain]
  split
  · rw [List.take_take, min_self]
  · rfl

/-- The greatest id of fewer rows is no greater. -/
theorem maxId_filter_le (t : IpChecks) (p : IpCheck → Bool) : (t.filter p).maxId ≤ t.maxId := by
  cases h : (t.filter p).rows.getLast? with
  | none =>
    rw [maxId, h]
    exact Nat.zero_le _
  | some r =>
    rw [maxId, h]
    exact t.le_maxId r (List.mem_filter.1 (List.mem_of_getLast? h)).1

/-- A prune keeps the greatest id when it keeps the row that has it. -/
theorem maxId_retain {t : IpChecks} {ips : List String} {k : Nat}
    (h : ∀ r, t.rows.getLast? = some r → r.ip ∈ ips → t.rowNumber r ≤ k) : (t.retain ips k).maxId = t.maxId := by
  refine le_antisymm (t.maxId_filter_le _) ?_
  cases hlast : t.rows.getLast? with
  | none =>
    rw [maxId, hlast]
    exact Nat.zero_le _
  | some r =>
    have hkept : r ∈ (t.retain ips k).rows := List.mem_filter.2 ⟨List.mem_of_getLast? hlast, decide_eq_true (h r hlast)⟩
    rw [maxId, hlast]
    exact (t.retain ips k).le_maxId r hkept

end IpChecks

/-! ## The version of a history -/

/-- The greatest id of a list is bounded by a bound of all its ids. -/
theorem foldl_max_id_le {l : List IpCheck} {m n : Nat} : l.foldl (fun m r => max m r.id) m ≤ n ↔ m ≤ n ∧ ∀ r ∈ l, r.id ≤ n := by
  induction l generalizing m with
  | nil => simp
  | cons r l ih =>
    rw [List.foldl_cons, ih, max_le_iff, List.forall_mem_cons, and_assoc]

namespace Database

/-- The version of a history is at most a number exactly when all ids of its rows are. -/
theorem ipHistoryVersion_le_iff {db : Database} {ip : String} {n : Nat} :
    db.ipHistoryVersion ip ≤ n ↔ ∀ r ∈ db.checks.of ip, r.id ≤ n := by
  rw [ipHistoryVersion, foldl_max_id_le]
  simp

/-- The version of a history is at least every id in it. -/
theorem le_ipHistoryVersion {db : Database} {ip : String} {r : IpCheck} (h : r ∈ db.checks.of ip) :
    r.id ≤ db.ipHistoryVersion ip :=
  ipHistoryVersion_le_iff.1 (le_refl _) r h

/-- It is an id that was given. -/
theorem ipHistoryVersion_le_maxId (db : Database) (ip : String) : db.ipHistoryVersion ip ≤ db.checks.maxId :=
  ipHistoryVersion_le_iff.2 fun r hr => db.checks.le_maxId r (IpChecks.mem_of.1 hr).1

end Database

end Gwsdb.Store
