import Gwsdb.Theorems.PoolAnswers
import Gwsdb.Theorems.CacheExact
import Gwsdb.Web.Home

/-!
# The site as the server of the home page

The model of the browser's cache takes its server at its word. Here a run of the site is read as such a server: what it
shows at a moment, and every version it has shown so far (`good_siteOf`). So what is known of a commit against that server
is known of one against the site.
-/

namespace Gwsdb.Web

open Gwsdb.Store
open Interleave (Run Prog)
open Interleave.Prog (After Event)
open Keyed (Table)
open DeltaSync (Advance IsChanged)

/-! ## One moment -/

/-- The rows of the pool under their IPs, as the endpoints show them. -/
def joinedTable (db : Database) : Table String IPRow where
  entries := db.pool.entries.map fun e => (e.1, (db.joinRow e.1 e.2).toIPRow)
  nodupKeys := by
    rw [List.map_map]
    exact db.pool.keys_nodup

/-- The joined table has what the query joins. -/
theorem get?_joinedTable (db : Database) (ip : String) : (joinedTable db).get? ip = db.joined ip := by
  refine Option.ext fun row => ?_
  rw [← Table.mem_entries_iff]
  unfold Database.joined joinedTable
  rw [List.mem_map, Option.map_eq_some_iff]
  constructor
  · rintro ⟨⟨ip', row'⟩, he, heq⟩
    cases heq
    exact ⟨row', (Table.mem_entries_iff _ _ _).mp he, rfl⟩
  · rintro ⟨row', hget, rfl⟩
    exact ⟨(ip, row'), (Table.mem_entries_iff _ _ _).mpr hget, rfl⟩

/-- What a database publishes. -/
def serverOf (db : Database) : Server where
  rows := joinedTable db
  version := db.version
  resetVersion := db.resetVersion
  keyed ip row h := by
    rw [get?_joinedTable] at h
    exact (Database.valid_snapshot db).keyed ip row h
  stamped ip row h := by
    rw [get?_joinedTable] at h
    exact (Database.valid_snapshot db).stamped ip row h
  reset_le := db.reset_le

/-- A server has the rows of its database. -/
theorem serverOf_rows (db : Database) : (serverOf db).rows.get? = db.joined := funext (get?_joinedTable db)

/-- It is at the snapshot of its database. -/
theorem serverOf_snapshot (db : Database) : (serverOf db).snapshot = db.snapshot := by
  unfold Server.snapshot Database.snapshot
  rw [serverOf_rows]
  rfl

/-! ## A run -/

variable {r : Run start serve}

/-- Moments with one version have one snapshot. -/
theorem snapshot_of_version {i j : Nat} (h : (r.state i).db.version = (r.state j).db.version) :
    (r.state i).db.snapshot = (r.state j).db.snapshot := by
  have hreset : (r.state i).db.resetVersion = (r.state j).db.resetVersion := by
    rcases Nat.le_total i j with hij | hji
    · exact (run_moved r hij).reset_same h
    · exact ((run_moved r hji).reset_same h.symm).symm
  unfold Database.snapshot
  rw [joined_of_version h, h, hreset]

/-- The server at a version, as of moment `n`. -/
noncomputable def pastOf (r : Run start serve) (n v : Nat) : Server := by
  classical
  exact if v = (r.state n).db.version then serverOf (r.state n).db
    else if h : ∃ k ≤ n, (r.state k).db.version = v then serverOf (r.state h.choose).db else serverOf (r.state n).db

/-- A site whose server is that of a moment of the run, with a cache. -/
noncomputable def siteOf (r : Run start serve) (n : Nat) (c : Cache) : Site := ⟨serverOf (r.state n).db, pastOf r n, c, []⟩

/-- What a server was at a version, its database was. -/
theorem pastOf_snapshot {n k v : Nat} (hk : k ≤ n) (hv : (r.state k).db.version = v) :
    (pastOf r n v).snapshot = (r.state k).db.snapshot := by
  unfold pastOf
  split
  · rename_i hnow
    rw [serverOf_snapshot]
    exact snapshot_of_version (hnow.symm.trans hv.symm)
  · split
    · rename_i hex
      rw [serverOf_snapshot]
      exact snapshot_of_version (hex.choose_spec.2.trans hv.symm)
    · rename_i hex
      exact absurd ⟨k, hk, hv⟩ hex

/-- So were its rows. -/
theorem pastOf_rows {n k v : Nat} (hk : k ≤ n) (hv : (r.state k).db.version = v) :
    (pastOf r n v).rows.get? = (r.state k).db.joined := congrArg DeltaSync.Snapshot.rows (pastOf_snapshot hk hv)

/-- The versions of the site are those that were reached. -/
theorem hasVersion_siteOf {n v : Nat} {c : Cache} : HasVersion (siteOf r n c) v ↔ ∃ k ≤ n, (r.state k).db.version = v := by
  constructor
  · rintro ⟨-, hv⟩
    change (pastOf r n v).version = v at hv
    unfold pastOf at hv
    split at hv
    · exact ⟨n, le_refl n, hv⟩
    · split at hv
      · assumption
      · exact ⟨n, le_refl n, hv⟩
  · rintro ⟨k, hk, hv⟩
    refine ⟨hv ▸ version_mono r hk, ?_⟩
    exact (congrArg DeltaSync.Snapshot.version (pastOf_snapshot hk hv)).trans hv

/-- A cache holds the pool of a moment up to `n` at the version in its metadata, and nothing while it has none. -/
structure CacheOf (r : Run start serve) (n : Nat) (c : Cache) : Prop where
  unread : c.metadata = none → c.rows = fun _ => none
  rows : ∀ m, c.metadata = some m → ∃ k ≤ n, (r.state k).db.version = m.version ∧ c.rows = (r.state k).db.joined

/-- A cache stays one of the site. -/
theorem CacheOf.mono {n n' : Nat} {c : Cache} (hn : n ≤ n') (h : CacheOf r n c) : CacheOf r n' c where
  unread := h.unread
  rows m hm := by
    obtain ⟨k, hk, hrows⟩ := h.rows m hm
    exact ⟨k, hk.trans hn, hrows⟩

/-- The site of a moment, with a cache of it, is one that the model of the cache begins with. -/
theorem good_siteOf {n : Nat} {c : Cache} (hc : CacheOf r n c) : Good (siteOf r n c) where
  current := if_pos rfl
  advance := by
    intro a b hab ha hb
    obtain ⟨i, hi, rfl⟩ := hasVersion_siteOf.mp ha
    obtain ⟨j, hj, rfl⟩ := hasVersion_siteOf.mp hb
    show Advance IPRow.revision (pastOf r n _).snapshot (pastOf r n _).snapshot
    rw [pastOf_snapshot hi rfl, pastOf_snapshot hj rfl]
    rcases Nat.le_total i j with hij | hji
    · exact (run_moved r hij).advance
    · rw [snapshot_of_version (hab.antisymm (version_mono r hji))]
      exact Advance.refl _
  exact := by
    unfold Exact
    cases hm : c.metadata with
    | none =>
      simp only [siteOf, hm]
      exact hc.unread hm
    | some m =>
      obtain ⟨k, hk, hv, hrows⟩ := hc.rows m hm
      simp only [siteOf, hm]
      rw [hrows, pastOf_rows hk hv]
  metadata m hm := by
    obtain ⟨k, hk, hv, -⟩ := hc.rows m hm
    exact hasVersion_siteOf.mpr ⟨k, hk, hv⟩
  tabs := nofun

/-- A cache whose rows are those at the version in its metadata, which was reached. -/
theorem cacheOf_of_rows {n k : Nat} {c : Cache} {m : Metadata} (hm : c.metadata = some m) (hk : k ≤ n)
    (hv : (r.state k).db.version = m.version) (hrows : c.rows = (r.state k).db.joined) : CacheOf r n c where
  unread h := by
    rw [hm] at h
    cases h
  rows m' hm' := by
    rw [hm] at hm'
    cases hm'
    exact ⟨k, hk, hv, hrows⟩

/-! ## Commits -/

/-- A body holds the whole pool of a moment up to `n`. -/
def FullOf (r : Run start serve) (n : Nat) (data : PoolData) : Prop :=
  ∃ k ≤ n, (r.state k).db.version = data.metadata.version ∧ storeOf data.ips = (r.state k).db.joined

/-- A body of the whole pool replaces an older cache. -/
theorem CacheOf.writeFull {n : Nat} {c : Cache} (hc : CacheOf r n c) {data : PoolData} (hdata : FullOf r n data) :
    CacheOf r n (writeFullCache c data) := by
  obtain ⟨k, hk, hv, hrows⟩ := hdata
  have hnew : CacheOf r n ⟨storeOf data.ips, some data.metadata⟩ := cacheOf_of_rows rfl hk hv hrows
  unfold writeFullCache
  split
  · split
    · exact hc
    · exact hnew
  · exact hnew

/-- The changes that a tab is to merge, as the model of the cache has them: they are exact, and begin at a
version no newer than the cache's. -/
theorem holds_merge {n since : Nat} {c : Cache} {m : Metadata} {data : PoolData}
    (hm : c.metadata = some m) (hsince : since ≤ m.version)
    (hseen : ∃ k ≤ n, (r.state k).db.version = since) (hdata : Answered r n since data) :
    Holds (siteOf r n c) (.gotChanges data) := by
  obtain ⟨k, hk, hv, hreset, -, hchanged⟩ := hdata
  refine ⟨hasVersion_siteOf.mpr ⟨k, hk.le, hv⟩, since, m, hasVersion_siteOf.mpr hseen, hm, hsince, ?_, ?_⟩
  · exact (congrArg DeltaSync.Snapshot.reset (pastOf_snapshot hk.le hv)).le.trans hreset
  · show IsChanged _ _ (pastOf r n data.metadata.version).snapshot since data.ips
    rw [pastOf_snapshot hk.le hv]
    exact hchanged

/-- Changes merged into a cache leave it exact if and only if they are not older than it, or it holds all their rows. -/
theorem CacheOf.merge_iff {n since : Nat} {c : Cache} (hc : CacheOf r n c) {m : Metadata}
    (hm : c.metadata = some m) {data : PoolData}
    (hsince : since ≤ m.version) (hseen : ∃ k ≤ n, (r.state k).db.version = since) (hdata : Answered r n since data) :
    CacheOf r n (applyChanges c data) ↔ m.version ≤ data.metadata.version ∨ ∀ row ∈ data.ips, c.rows row.ip ≠ none := by
  have hgood : Good (siteOf r n c) := good_siteOf hc
  have hholds : Holds (siteOf r n c) (.gotChanges data) := holds_merge hm hsince hseen hdata
  have hmeta := applyChanges_metadata data hm
  obtain ⟨i, hi, hvi, hrows⟩ := hc.rows m hm
  by_cases hle : m.version ≤ data.metadata.version
  · rw [if_pos hle] at hmeta
    refine iff_of_true ?_ (.inl hle)
    obtain ⟨k, hk, hv, -⟩ := hdata
    refine cacheOf_of_rows hmeta hk.le hv ?_
    rw [← pastOf_rows hk.le hv]
    exact applyChanges_newer hgood hholds hm hle
  · rw [if_neg hle] at hmeta
    have holder : (applyChanges c data).rows = c.rows ↔ ∀ row ∈ data.ips, c.rows row.ip ≠ none :=
      applyChanges_older hgood hholds hm (not_le.mp hle)
    rw [or_iff_right hle, ← holder]
    constructor
    · intro h
      obtain ⟨k, hk, hv, hrows'⟩ := h.rows m hmeta
      rw [hrows', hrows]
      exact joined_of_version (hv.trans hvi.symm)
    · intro h
      refine cacheOf_of_rows hmeta hi hvi ?_
      rw [← hrows]
      exact h

/-! ## Answers -/

/-- The rows a moment lists fill a store with the pool of that moment. -/
theorem storeOf_lists {db : Database} {ips : List IPRow} (h : Lists db none ips) : storeOf ips = db.joined := by
  have hrows : ∀ row, row ∈ ips ↔ db.joined row.ip = some row := by
    intro row
    rw [← shown_none]
    exact h.rows row
  funext ip
  unfold storeOf
  rw [DeltaSync.overwrite_of_mem (g := db.joined) fun row hrow => (hrows row).mp hrow]
  split
  · rfl
  · rename_i hn
    cases hjoined : db.joined ip with
    | none => rfl
    | some row =>
      obtain ⟨-, -, hip, -⟩ := Database.joined_some hjoined
      exact absurd (List.mem_map.mpr ⟨row, (hrows row).mpr (by rw [hip]; exact hjoined), hip⟩) hn

/-- An answer of the endpoint to the home page holds the whole pool, of a version not before that of
the beginning of the request. -/
theorem PoolAnswer.fullOf {m n : Nat} {data : PoolData} (h : PoolAnswer r m n none data) :
    FullOf r n data ∧ (r.state m).db.version ≤ data.metadata.version := by
  obtain ⟨k, hmk, hkn, hv, hlists, -⟩ := h
  exact ⟨⟨k, hkn, hv, storeOf_lists hlists⟩, hv ▸ version_mono r hmk⟩

/-- A request for changes that has rows to answer read the version they carry first. -/
theorem version_of_changes {m n since : Nat} {edgeHit totalsHit : Bool}
    {es : List (Event Store.Call Reply Store.Site)} {data : PoolData}
    (h : After (handleChanges since edgeHit totalsHit) es (.ret (.changes data))) (hes : r.Recorded m n es)
    (hedge : ∀ i < n, EdgeAnswered r i) : (r.state m).db.version ≤ data.metadata.version := by
  rcases After.of_call h with ⟨-, hq⟩ | ⟨_, version, es₁, rfl, h₁⟩
  · cases hq
  obtain ⟨i, hmi, hi, -, -, hver, hes₁⟩ := hes
  have hver : (r.state i).db.version = version := hver.symm
  refine (version_mono r hmi).trans ?_
  rw [hver]
  simp only [Prog.bind] at h₁
  split at h₁
  · obtain ⟨-, hq⟩ := After.of_ret h₁
    cases hq
  rcases After.of_call h₁ with ⟨-, hq⟩ | ⟨_, resetVersion, es₂, rfl, h₂⟩
  · cases hq
  obtain ⟨j, hij, hj, -, -, -, hes₂⟩ := hes₁
  simp only [Prog.bind] at h₂
  split at h₂
  · obtain ⟨-, hq⟩ := After.of_ret h₂
    cases hq
  split at h₂
  · obtain ⟨-, hq⟩ := After.of_ret h₂
    cases hq
    exact le_refl _
  have hload : ∀ {es : List (Event Store.Call Reply Store.Site)}, After (loadChanges since version totalsHit) es
      (.ret (.changes data)) → version ≤ data.metadata.version := by
    intro es h
    rcases after_loadChanges h with hq | ⟨s, rows, es₁, s', es₂, stats, -, hq | ⟨k, hq⟩⟩
    · exact hq.elim
    · cases hq
      exact le_refl _
    · cases hq
  cases edgeHit with
  | false => exact hload h₂
  | true =>
    rcases After.of_call h₂ with ⟨-, hq⟩ | ⟨_, cached, es₃, rfl, h₃⟩
    · cases hq
    obtain ⟨k, -, hk, -, -, hcached, -⟩ := hes₂
    have hcached : cached = (r.state k).edge.get? (since, version) := hcached
    cases cached with
    | none => exact hload h₃
    | some data' =>
      obtain ⟨-, hq⟩ := After.of_ret h₃
      cases hq
      exact (hedge k hk since version data hcached.symm).1.ge

/-- An answer with rows of a request that began at a moment or after it: it stands for a moment of the run, and its version is not
before that of the beginning. -/
theorem changes_answered (hedge : (r.state 0).edge = Table.empty) {m n j since : Nat} {edgeHit totalsHit : Bool} {data : PoolData}
    {hist : List (Event Store.Call Reply Store.Site)} (hmn : m ≤ n)
    (ht : (r.config n).threads[j]? = some ⟨.changes since edgeHit totalsHit, .ret (.changes data), hist⟩)
    (hj : (r.config m).threads.length ≤ j) : Answered r n since data ∧ (r.state m).db.version ≤ data.metadata.version := by
  obtain ⟨hafter, hrec⟩ := r.thread_spec n _ (List.mem_of_getElem? ht)
  have hedges : ∀ i < n, EdgeAnswered r i := fun i hi => edgeAnswered r hedge n i hi.le
  refine ⟨?_, version_of_changes hafter (r.recorded_since hmn ht hj) hedges⟩
  rcases decided_answered hafter hrec hedges with hq | ⟨data', ha, hq | ⟨k, hq⟩⟩
  · exact hq.elim
  · cases hq
    exact ha
  · cases hq

end Gwsdb.Web
