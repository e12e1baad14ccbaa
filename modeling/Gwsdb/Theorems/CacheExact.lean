import Gwsdb.Web.HomeCache

/-!
# When the browser's cache stays exact

The cache is exact when the row store holds the server's rows as of the version in the metadata. `writeFullCache` and
`applyChanges` keep it exact, with one exception: `applyChanges` puts rows from an answer that is older than the metadata, and one
of them may have been evicted since, so that it returns for good (`evicted_row_returns`). `cache_exact_iff` says that this is the
only way: a run keeps the cache exact at every moment if and only if each of its commits meets `CommitsFresh`.
-/

namespace Gwsdb.Web

open Keyed (Table)
open DeltaSync (Advance Valid IsChanged overwrite)
open Transition (run Meets)

/-! ## The statement -/

/-- The row store holds the pool as of the version in the metadata, and nothing while there is no metadata. -/
def Exact (s : Site) : Prop :=
  match s.cache.metadata with
  | none => s.cache.rows = fun _ => none
  | some m => s.cache.rows = (s.past m.version).rows.get?

/-- A commit of changes finds metadata that is not newer than they are, or every one of their rows in the store. -/
def CommitsFresh (s : Site) (a : Act) : Prop :=
  ∀ i display data m, a = .go i display → s.tabs[i]? = some (.gotChanges data) → s.cache.metadata = some m →
    m.version ≤ data.metadata.version ∨ ∀ r ∈ data.ips, s.cache.rows r.ip ≠ none

/-! ## The server's answers -/

/-- A server's rows are valid. -/
theorem Server.valid (p : Server) : Valid IPRow.ip IPRow.revision p.snapshot where
  keyed := p.keyed
  stamped := p.stamped

/-- The server lists the rows it has. -/
theorem Server.mem_ips (p : Server) (r : IPRow) : r ∈ p.ips ↔ p.rows.get? r.ip = some r := by
  unfold Server.ips
  rw [List.mem_map]
  constructor
  · rintro ⟨⟨ip, r'⟩, hm, rfl⟩
    have hr := (Table.mem_entries_iff _ _ _).1 hm
    rw [p.keyed ip r' hr]
    exact hr
  · intro h
    exact ⟨(r.ip, r), (Table.mem_entries_iff _ _ _).2 h, rfl⟩

/-- The store filled with the whole pool is the pool. -/
theorem Server.storeOf_ips (p : Server) : storeOf p.ips = p.rows.get? := by
  funext ip
  unfold storeOf
  rw [DeltaSync.overwrite_of_mem (g := p.rows.get?) fun r hr => (p.mem_ips r).1 hr]
  split
  · rfl
  · rename_i hn
    cases h : p.rows.get? ip with
    | none => rfl
    | some r =>
      have hip := p.keyed ip r h
      exact absurd (List.mem_map.2 ⟨r, (p.mem_ips r).2 (by rw [hip]; exact h), hip⟩) hn

/-- What it answers as changes has changed since. -/
theorem Server.isChanged_changes (p : Server) (since : Nat) (display : Metadata) :
    IsChanged IPRow.ip IPRow.revision p.snapshot since (p.changes since display).ips := by
  intro r
  show r ∈ p.ips.filter _ ↔ _
  rw [List.mem_filter, p.mem_ips]
  simp only [Bool.and_eq_true, decide_eq_true_eq]
  constructor
  · rintro ⟨h, hlt, -⟩
    exact ⟨h, hlt⟩
  · rintro ⟨h, hlt⟩
    exact ⟨h, hlt, p.stamped _ _ h⟩

/-- Rows that are put stay in the table. -/
theorem putRows_ne_none (v : Nat) (t : Table String IPRow) (puts : List IPRow) {ip : String} (h : t.get? ip ≠ none) :
    (puts.foldl (putRow v) t).get? ip ≠ none := by
  induction puts generalizing t with
  | nil => exact h
  | cons r puts ih =>
    apply ih
    unfold putRow
    rw [Table.get?_put]
    split
    · exact Option.some_ne_none _
    · exact h

/-- A change of the pool leads to a later snapshot of it. -/
theorem Server.advance_publish (p : Server) (puts : List IPRow) (evicts : List String) :
    Advance IPRow.revision p.snapshot (p.publish puts evicts).snapshot where
  version_le := Nat.le_succ _
  reset_le := by
    have := p.reset_le
    show p.resetVersion ≤ if evicts = [] then p.resetVersion else p.version + 1
    split <;> omega
  unchanged := by
    intro ip r h hr
    rcases get?_putRows _ _ _ h with ⟨-, h⟩ | h
    · change r.revision ≤ p.version at hr
      omega
    · exact Table.get?_of_filter h
  removed := by
    intro ip h₁ h₂
    show p.version < if evicts = [] then p.resetVersion else p.version + 1
    by_cases he : evicts = []
    · exfalso
      refine putRows_ne_none _ _ _ ?_ h₂
      rw [Table.get?_filter, he]
      change p.rows.get? ip ≠ none at h₁
      obtain ⟨r, hr⟩ := Option.ne_none_iff_exists'.1 h₁
      simp [hr]
    · rw [if_neg he]
      exact Nat.lt_succ_self _
  same := by
    intro h
    change p.version = p.version + 1 at h
    omega

/-! ## Commits -/

/-- Every row is put when none is older than the one it replaces. -/
theorem applyRows_all {old : String → Option IPRow} {ips : List IPRow}
    (h : ∀ r ∈ ips, ∀ o, old r.ip = some o → o.revision ≤ r.revision) (rows : String → Option IPRow) :
    ips.foldl (applyRow old) rows = overwrite IPRow.ip rows ips := by
  induction ips generalizing rows with
  | nil => rfl
  | cons r ips ih =>
    have hput : applyRow old rows r = Function.update rows r.ip (some r) := by
      unfold applyRow
      cases ho : old r.ip with
      | none => rfl
      | some o => simp only [if_pos (h r List.mem_cons_self o ho)]
    rw [List.foldl_cons, hput, ih fun r' hr' => h r' (List.mem_cons_of_mem _ hr')]
    rfl

/-- Nothing changes when every row is in the store already, as it is or in a later revision. -/
theorem applyRows_none {old : String → Option IPRow} {ips : List IPRow}
    (h : ∀ r ∈ ips, ∃ o, old r.ip = some o ∧ (o = r ∨ r.revision < o.revision)) : ips.foldl (applyRow old) old = old := by
  induction ips with
  | nil => rfl
  | cons r ips ih =>
    have hkeep : applyRow old old r = old := by
      obtain ⟨o, ho, hor⟩ := h r List.mem_cons_self
      unfold applyRow
      rw [ho]
      rcases hor with rfl | hlt
      · simp only [le_refl, if_true]
        rw [← ho, Function.update_eq_self]
      · simp only [if_neg (not_le.2 hlt)]
    rw [List.foldl_cons, hkeep]
    exact ih fun r' hr' => h r' (List.mem_cons_of_mem _ hr')

/-- Applying a row drops no other. -/
theorem applyRow_ne_none {old rows : String → Option IPRow} {r : IPRow} {ip : String}
    (h : rows ip ≠ none ∨ (r.ip = ip ∧ old ip = none)) : applyRow old rows r ip ≠ none := by
  unfold applyRow
  by_cases hip : ip = r.ip
  · subst hip
    cases ho : old r.ip with
    | none => simp
    | some o =>
      rcases h with h | ⟨-, h⟩
      · by_cases hle : o.revision ≤ r.revision
        · simp [hle]
        · simpa [hle] using h
      · rw [ho] at h
        cases h
  · have hr : rows ip ≠ none := by
      rcases h with h | ⟨h, -⟩
      · exact h
      · exact absurd h.symm hip
    cases ho : old r.ip with
    | none => simpa [Function.update_of_ne hip] using hr
    | some o =>
      by_cases hle : o.revision ≤ r.revision
      · simpa [hle, Function.update_of_ne hip] using hr
      · simpa [hle] using hr

/-- A row that the store does not hold is put, and stays. -/
theorem applyRows_puts {old : String → Option IPRow} {ips : List IPRow} {ip : String} :
    ∀ rows : String → Option IPRow, (rows ip ≠ none ∨ ∃ r ∈ ips, r.ip = ip ∧ old ip = none) →
      ips.foldl (applyRow old) rows ip ≠ none := by
  induction ips with
  | nil =>
    rintro rows (h | ⟨r, hr, -⟩)
    · exact h
    · cases hr
  | cons r ips ih =>
    rintro rows (h | ⟨r', hr', hip, ho⟩)
    · exact ih _ (Or.inl (applyRow_ne_none (Or.inl h)))
    · rcases List.mem_cons.1 hr' with rfl | hr'
      · exact ih _ (Or.inl (applyRow_ne_none (Or.inr ⟨hip, ho⟩)))
      · exact ih _ (Or.inr ⟨r', hr', hip, ho⟩)

/-! ## The invariant -/

/-- Version `v` is one the pool had, and `past` has it. -/
def HasVersion (s : Site) (v : Nat) : Prop := v ≤ s.server.version ∧ (s.past v).version = v

/-- What a tab holds is exact for its version; changes start at a version no newer than the metadata, and nothing was removed
between the two. -/
def Holds (s : Site) : Tab → Prop
  | .fetchChanges since => HasVersion s since ∧ ∃ m, s.cache.metadata = some m ∧ since ≤ m.version
  | .gotFull data => HasVersion s data.metadata.version ∧ storeOf data.ips = (s.past data.metadata.version).rows.get?
  | .gotChanges data =>
    HasVersion s data.metadata.version ∧
      ∃ since m, HasVersion s since ∧ s.cache.metadata = some m ∧ since ≤ m.version ∧
        (s.past data.metadata.version).resetVersion ≤ since ∧
        IsChanged IPRow.ip IPRow.revision (s.past data.metadata.version).snapshot since data.ips
  | _ => True

structure Good (s : Site) : Prop where
  current : s.past s.server.version = s.server
  advance : ∀ a b, a ≤ b → HasVersion s a → HasVersion s b → Advance IPRow.revision (s.past a).snapshot (s.past b).snapshot
  exact : Exact s
  metadata : ∀ m, s.cache.metadata = some m → HasVersion s m.version
  tabs : ∀ t ∈ s.tabs, Holds s t

/-- What a tab holds stays exact while the pool goes on, `past` keeps its versions, and the metadata only gets newer. -/
theorem Holds.mono {s s' : Site} (hv : ∀ v, HasVersion s v → HasVersion s' v ∧ s'.past v = s.past v)
    (hm : ∀ m, s.cache.metadata = some m → ∃ m', s'.cache.metadata = some m' ∧ m.version ≤ m'.version) {t : Tab}
    (h : Holds s t) : Holds s' t := by
  cases t with
  | fetchChanges since =>
    obtain ⟨h₁, m, h₂, h₃⟩ := h
    obtain ⟨m', h₄, h₅⟩ := hm m h₂
    exact ⟨(hv _ h₁).1, m', h₄, h₃.trans h₅⟩
  | gotFull data =>
    obtain ⟨h₁, h₂⟩ := h
    exact ⟨(hv _ h₁).1, by rw [(hv _ h₁).2]; exact h₂⟩
  | gotChanges data =>
    obtain ⟨h₁, since, m, h₂, h₃, h₄, h₅, h₆⟩ := h
    obtain ⟨m', h₇, h₈⟩ := hm m h₃
    refine ⟨(hv _ h₁).1, since, m', (hv _ h₂).1, h₇, h₄.trans h₈, ?_⟩
    rw [(hv _ h₁).2]
    exact ⟨h₅, h₆⟩
  | _ => trivial

/-- A step that leaves server, past and cache alone, and a tab that holds what it should. -/
theorem Good.setTab {s : Site} (hs : Good s) {i : Nat} {t : Tab} (ht : Holds s t) : Good { s with tabs := s.tabs.set i t } where
  current := hs.current
  advance := hs.advance
  exact := hs.exact
  metadata := hs.metadata
  tabs := by
    intro u hu
    rcases List.mem_or_eq_of_mem_set hu with hu | rfl
    · exact hs.tabs u hu
    · exact ht

/-- A commit that leaves exact rows for its metadata, which is not older than before. -/
theorem Good.commit {s : Site} (hs : Good s) {i : Nat} {c : Cache} {m' : Metadata} (hm' : c.metadata = some m')
    (hv : HasVersion s m'.version) (hrows : c.rows = (s.past m'.version).rows.get?)
    (hle : ∀ m, s.cache.metadata = some m → m.version ≤ m'.version) :
    Good { s with tabs := s.tabs.set i .done, cache := c } where
  current := hs.current
  advance := hs.advance
  exact := by
    unfold Exact
    rw [hm']
    exact hrows
  metadata := by
    intro m hm
    change c.metadata = some m at hm
    rw [hm'] at hm
    cases hm
    exact hv
  tabs := by
    intro u hu
    rcases List.mem_or_eq_of_mem_set hu with hu | rfl
    · refine Holds.mono ?_ ?_ (hs.tabs u hu)
      · exact fun v hv => ⟨hv, rfl⟩
      · exact fun m hm => ⟨m', hm', hle m hm⟩
    · trivial

/-- The rows of the cache, when it is good and has metadata. -/
theorem Good.rows {s : Site} (hs : Good s) {m : Metadata} (hm : s.cache.metadata = some m) :
    s.cache.rows = (s.past m.version).rows.get? := by
  have h := hs.exact
  unfold Exact at h
  rw [hm] at h
  exact h

/-- The full answer replaces an older cache, and leaves a newer one alone. -/
theorem Good.commitFull {s : Site} (hs : Good s) {i : Nat} {data : PoolData} (ht : Holds s (.gotFull data)) :
    Good { s with tabs := s.tabs.set i .done, cache := writeFullCache s.cache data } := by
  obtain ⟨hv, hstore⟩ := ht
  unfold writeFullCache
  cases hm : s.cache.metadata with
  | none => exact hs.commit rfl hv hstore fun m h => by rw [hm] at h; cases h
  | some m =>
    by_cases hlt : m.version > data.metadata.version
    · simp only [if_pos hlt]
      exact hs.setTab trivial
    · simp only [if_neg hlt]
      refine hs.commit rfl hv hstore fun m' h => ?_
      rw [hm] at h
      cases h
      exact not_lt.1 hlt

/-- Changes not older than the metadata bring the cache to their version. -/
theorem applyChanges_newer {s : Site} (hs : Good s) {data : PoolData} (ht : Holds s (.gotChanges data)) {m : Metadata}
    (hm : s.cache.metadata = some m) (hle : m.version ≤ data.metadata.version) :
    (applyChanges s.cache data).rows = (s.past data.metadata.version).rows.get? := by
  obtain ⟨hv, since, m', hsince, hm', hsm, hreset, hch⟩ := ht
  rw [hm] at hm'
  cases hm'
  have hvm := hs.metadata m hm
  have hadv := hs.advance _ _ hle hvm hv
  have hver : (s.past m.version).snapshot.version = m.version := hvm.2
  show data.ips.foldl (applyRow s.cache.rows) s.cache.rows = _
  rw [applyRows_all, hs.rows hm]
  · refine hadv.overwrite_changed (Server.valid _) ?_ ?_ hch
    · rw [hver]; exact hreset.trans hsm
    · rw [hver]; exact hsm
  · intro r hr o ho
    rw [hs.rows hm] at ho
    have hstamp : o.revision ≤ m.version := by
      have h := (s.past m.version).stamped _ _ ho
      rw [hvm.2] at h
      exact h
    by_cases hrev : r.revision ≤ m.version
    · have hold := hadv.unchanged r.ip r ((hch r).1 hr).1 (by rw [hver]; exact hrev)
      change (s.past m.version).rows.get? r.ip = some r at hold
      rw [hold] at ho
      cases ho
      exact le_refl _
    · omega

/-- Changes older than the metadata: a row of theirs that the store holds is there as it is, or in a later revision. -/
theorem older_row {s : Site} (hs : Good s) {data : PoolData} (ht : Holds s (.gotChanges data)) {m : Metadata}
    (hm : s.cache.metadata = some m) (hlt : data.metadata.version < m.version) {r o : IPRow} (hr : r ∈ data.ips)
    (ho : s.cache.rows r.ip = some o) : o = r ∨ r.revision < o.revision := by
  obtain ⟨hv, since, m', -, -, -, -, hch⟩ := ht
  have hvm := hs.metadata m hm
  have hadv := hs.advance _ _ hlt.le hv hvm
  have hver : (s.past data.metadata.version).snapshot.version = data.metadata.version := hv.2
  have hrow : (s.past data.metadata.version).rows.get? r.ip = some r := ((hch r).1 hr).1
  rw [hs.rows hm] at ho
  by_cases hrev : o.revision ≤ data.metadata.version
  · left
    have hold := hadv.unchanged r.ip o ho (by rw [hver]; exact hrev)
    change (s.past data.metadata.version).rows.get? r.ip = some o at hold
    rw [hrow] at hold
    cases hold
    rfl
  · right
    have hstamp := (s.past data.metadata.version).stamped _ _ hrow
    rw [hv.2] at hstamp
    omega

/-- The metadata after changes are applied. -/
theorem applyChanges_metadata {c : Cache} (data : PoolData) {m : Metadata} (hm : c.metadata = some m) :
    (applyChanges c data).metadata = if m.version ≤ data.metadata.version then some data.metadata else some m := by
  unfold applyChanges
  rw [hm]

/-- Changes older than the metadata leave the rows exact if and only if the store holds every one of theirs. -/
theorem applyChanges_older {s : Site} (hs : Good s) {data : PoolData} (ht : Holds s (.gotChanges data)) {m : Metadata}
    (hm : s.cache.metadata = some m) (hlt : data.metadata.version < m.version) :
    (applyChanges s.cache data).rows = s.cache.rows ↔ ∀ r ∈ data.ips, s.cache.rows r.ip ≠ none := by
  constructor
  · intro h r hr hnone
    have hput : (applyChanges s.cache data).rows r.ip ≠ none := applyRows_puts s.cache.rows (Or.inr ⟨r, hr, rfl, hnone⟩)
    rw [h] at hput
    exact hput hnone
  · intro h
    apply applyRows_none
    intro r hr
    obtain ⟨o, ho⟩ := Option.ne_none_iff_exists'.1 (h r hr)
    exact ⟨o, ho, older_row hs ht hm hlt hr ho⟩

/-! ## Steps and runs -/

/-- A published change keeps every version the pool had. -/
theorem publish_hasVersion {s : Site} {puts : List IPRow} {evicts : List String} {v : Nat} (hv : HasVersion s v) :
    let p := s.server.publish puts evicts
    HasVersion { s with server := p, past := Function.update s.past p.version p } v ∧
      Function.update s.past p.version p v = s.past v := by
  intro p
  obtain ⟨h₁, h₂⟩ := hv
  have hp : p.version = s.server.version + 1 := rfl
  have hne : v ≠ p.version := by omega
  have hpast : Function.update s.past p.version p v = s.past v := Function.update_of_ne hne _ _
  exact ⟨⟨by show v ≤ p.version; omega, by show (Function.update s.past p.version p v).version = v; rw [hpast]; exact h₂⟩, hpast⟩

/-- After a change, a version is the new one or one the pool had. -/
theorem hasVersion_publish {s : Site} {puts : List IPRow} {evicts : List String} {v : Nat} :
    let p := s.server.publish puts evicts
    HasVersion { s with server := p, past := Function.update s.past p.version p } v → v = p.version ∨ HasVersion s v := by
  rintro p ⟨h₁, h₂⟩
  by_cases hv : v = p.version
  · exact Or.inl hv
  · right
    change (Function.update s.past p.version p v).version = v at h₂
    rw [Function.update_of_ne hv] at h₂
    have hp : p.version = s.server.version + 1 := rfl
    change v ≤ p.version at h₁
    exact ⟨by omega, h₂⟩

/-- A site in order publishes. -/
theorem Good.publish {s : Site} (hs : Good s) (puts : List IPRow) (evicts : List String) :
    let p := s.server.publish puts evicts
    Good { s with server := p, past := Function.update s.past p.version p } := by
  intro p
  have hp : (s.server.publish puts evicts).version = s.server.version + 1 := rfl
  have hadv : Advance IPRow.revision s.server.snapshot p.snapshot := s.server.advance_publish puts evicts
  constructor
  case current => exact Function.update_self _ _ _
  case advance =>
    intro a b hab ha hb
    show Advance _ (Function.update s.past p.version p a).snapshot (Function.update s.past p.version p b).snapshot
    rcases hasVersion_publish hb with rfl | hb'
    · rw [Function.update_self]
      rcases hasVersion_publish ha with rfl | ha'
      · rw [Function.update_self]
        exact Advance.refl _
      · rw [(publish_hasVersion ha').2]
        have hold := hs.advance a s.server.version ha'.1 ha' ⟨le_refl _, by rw [hs.current]⟩
        rw [hs.current] at hold
        exact hold.trans hadv
    · have ha' : HasVersion s a := by
        rcases hasVersion_publish ha with rfl | ha'
        · have := hb'.1
          omega
        · exact ha'
      rw [(publish_hasVersion ha').2, (publish_hasVersion hb').2]
      exact hs.advance a b hab ha' hb'
  case exact =>
    have h := hs.exact
    unfold Exact at h ⊢
    cases hm : s.cache.metadata with
    | none =>
      rw [hm] at h
      exact h
    | some m =>
      rw [hm] at h
      simp only at h ⊢
      rw [(publish_hasVersion (hs.metadata m hm)).2]
      exact h
  case metadata => exact fun m hm => (publish_hasVersion (hs.metadata m hm)).1
  case tabs =>
    exact fun t ht => (hs.tabs t ht).mono (fun v hv => publish_hasVersion hv) fun m hm => ⟨m, hm, le_refl _⟩

/-- What a tab gets from the server is exact for the server's version. -/
theorem Good.current_version {s : Site} (hs : Good s) : HasVersion s s.server.version := ⟨le_refl _, by rw [hs.current]⟩

/-- It answers changes of its own state. -/
theorem Good.answerChanges {s : Site} (hs : Good s) {since : Nat} (ht : Holds s (.fetchChanges since)) (display : Metadata) :
    Holds s (answerChanges s.server since display) := by
  obtain ⟨hv, m, hm, hle⟩ := ht
  unfold Web.answerChanges
  by_cases hr : s.server.resets since = true
  · rw [if_pos hr]
    trivial
  · rw [if_neg hr]
    by_cases hsame : s.server.version = since
    · rw [if_pos hsame]
      trivial
    · rw [if_neg hsame]
      simp only [Server.resets, Bool.or_eq_true, decide_eq_true_eq, not_or, not_lt] at hr
      refine ⟨hs.current_version, since, m, hv, hm, hle, ?_, ?_⟩
      · show (s.past s.server.version).resetVersion ≤ since
        rw [hs.current]
        exact hr.2
      · show IsChanged _ _ (s.past s.server.version).snapshot since _
        rw [hs.current]
        exact s.server.isChanged_changes since display

/-- From a good site, a step leads to an exact one exactly when it commits fresh changes, and then to a good one. Only
a commit of changes has a condition to meet. -/
theorem nextSite_good {s s' : Site} {a : Act} (h : nextSite s a = some s') (hs : Good s) :
    (CommitsFresh s a → Good s') ∧ (Exact s' → CommitsFresh s a) := by
  cases a with
  | publish puts evicts =>
    cases h
    exact ⟨fun _ => hs.publish puts evicts, fun _ => nofun⟩
  | openTab =>
    cases h
    refine ⟨fun _ => ⟨hs.current, hs.advance, hs.exact, hs.metadata, fun t ht => ?_⟩, fun _ => nofun⟩
    rcases List.mem_append.1 ht with ht | ht
    · exact hs.tabs t ht
    · rw [List.mem_singleton.1 ht]
      trivial
  | giveUp i =>
    simp only [nextSite, Option.ite_none_right_eq_some, Option.some.injEq] at h
    obtain ⟨-, rfl⟩ := h
    exact ⟨fun _ => hs.setTab trivial, fun _ => nofun⟩
  | go i display =>
    simp only [nextSite] at h
    cases ht : s.tabs[i]? with
    | none =>
      rw [ht] at h
      cases h
    | some t =>
      rw [ht] at h
      have hold : Holds s t := hs.tabs t (List.mem_of_getElem? ht)
      have hfresh : (∀ data, t ≠ .gotChanges data) → CommitsFresh s (.go i display) := by
        rintro hne j d data m ⟨⟩ hj
        rw [ht] at hj
        cases hj
        exact absurd rfl (hne data)
      cases t with
      | opened =>
        cases h
        refine ⟨fun _ => hs.setTab ?_, fun _ => hfresh nofun⟩
        cases hm : s.cache.metadata with
        | none => trivial
        | some m => exact ⟨hs.metadata m hm, m, hm, le_refl _⟩
      | fetchFull =>
        cases h
        refine ⟨fun _ => hs.setTab ⟨hs.current_version, ?_⟩, fun _ => hfresh nofun⟩
        show storeOf s.server.ips = (s.past s.server.version).rows.get?
        rw [hs.current]
        exact s.server.storeOf_ips
      | fetchChanges since =>
        cases h
        exact ⟨fun _ => hs.setTab (hs.answerChanges hold display), fun _ => hfresh nofun⟩
      | gotFull data =>
        cases h
        exact ⟨fun _ => hs.commitFull hold, fun _ => hfresh nofun⟩
      | gotChanges data =>
        cases h
        have hgot := hold
        obtain ⟨hv, since, m, -, hm, -⟩ := hgot
        have hmeta := applyChanges_metadata data hm
        by_cases hle : m.version ≤ data.metadata.version
        · rw [if_pos hle] at hmeta
          refine ⟨fun _ => hs.commit hmeta hv (applyChanges_newer hs hold hm hle) fun m' hm' => ?_, ?_⟩
          · rw [hm] at hm'
            cases hm'
            exact hle
          · rintro - j d data' m' ⟨⟩ hj hm'
            rw [ht] at hj
            rw [hm] at hm'
            cases hj
            cases hm'
            exact Or.inl hle
        · rw [if_neg hle] at hmeta
          have hiff := applyChanges_older hs hold hm (not_le.1 hle)
          constructor
          · intro hc
            rcases hc i display data m rfl ht hm with h | h
            · exact absurd h hle
            · refine hs.commit hmeta (hs.metadata m hm) ?_ fun m' hm' => ?_
              · rw [hiff.2 h]
                exact hs.rows hm
              · rw [hm] at hm'
                cases hm'
                exact le_refl _
          · rintro he j d data' m' ⟨⟩ hj hm'
            rw [ht] at hj
            rw [hm] at hm'
            cases hj
            cases hm'
            right
            apply hiff.1
            unfold Exact at he
            simp only [hmeta] at he
            rw [hs.rows hm]
            exact he
      | done => cases h

/-- A site starts in order. -/
theorem Good.start (p : Server) : Good (.start p) where
  current := rfl
  advance := fun _ _ _ _ _ => Advance.refl _
  exact := rfl
  metadata := nofun
  tabs := nofun

/-- For any number of tabs and any interleaving with the server: the cache is exact at every moment of a run if and only if every
commit of changes finds metadata that is not newer, or all its rows in the store. -/
theorem cache_exact_iff (p : Server) (as : List Act) (s : Site) (hr : run nextSite (.start p) as = some s) :
    (∀ bs s', bs <+: as → run nextSite (.start p) bs = some s' → Exact s') ↔ Meets nextSite CommitsFresh (.start p) as := by
  have hE : ∀ s a s', nextSite s a = some s' → Good s → (Exact s' ↔ CommitsFresh s a) := by
    intro s a s' h hs
    exact ⟨(nextSite_good h hs).2, fun hc => ((nextSite_good h hs).1 hc).exact⟩
  have hI : ∀ s a s', nextSite s a = some s' → CommitsFresh s a → Good s → Good s' := by
    intro s a s' h hc hs
    exact (nextSite_good h hs).1 hc
  exact Transition.always_iff_meets (fun s hs => hs.exact) hE hI hr (Good.start p)

/-! ## Two runs -/

/-- A server without rows. -/
def emptyServer : Server where
  rows := Table.empty
  version := 0
  resetVersion := 0
  keyed := by
    intro ip r h
    rw [Table.get?_empty] at h
    cases h
  stamped := by
    intro ip r h
    rw [Table.get?_empty] at h
    cases h
  reset_le := Nat.le_refl 0

def sampleRow (ip : String) (rtt : Int) : IPRow :=
  { ip := ip, revision := 0, ptrList := [], status := "Reachable", firstSeen := "2026-01-01 00:00:00",
    lastSeen := "2026-01-01 00:00:00", lastRttMs := rtt }

def sampleDisplay : Metadata :=
  { version := 0, count := none, scanMode := "SNI", totalKnownIPs := 2, totalChecks := 2, lastCheckAt := "2026-01-01 00:00:00" }

/-- A first tab fills the cache; a second reads it, and the pool changes. -/
def twoTabs : List Act :=
  [.publish [sampleRow "8.8.4.4" 40, sampleRow "8.8.8.8" 50] [], .openTab, .go 0 sampleDisplay, .go 0 sampleDisplay,
    .go 0 sampleDisplay, .openTab, .go 1 sampleDisplay, .publish [sampleRow "8.8.8.8" 60] [], .go 1 sampleDisplay]

/-- The second tab commits its changes. -/
def freshRun : List Act := twoTabs ++ [.go 1 sampleDisplay]

/-- Before the second tab commits, the row it holds is evicted, and a third tab replaces the cache. -/
def lateRun : List Act :=
  twoTabs ++ [.publish [] ["8.8.8.8"], .openTab, .go 2 sampleDisplay, .go 2 sampleDisplay,
    .go 2 sampleDisplay, .go 2 sampleDisplay,
    .go 1 sampleDisplay]

/-- A run that commits fresh answers keeps the cache exact. -/
theorem cache_exact_fresh : Meets nextSite CommitsFresh (.start emptyServer) freshRun ∧
    ∀ bs s', bs <+: freshRun → run nextSite (.start emptyServer) bs = some s' → Exact s' := by
  have hfresh : Meets nextSite CommitsFresh (.start emptyServer) freshRun := by
    refine .cons rfl nofun (.cons rfl nofun (.cons rfl ?_ (.cons rfl ?_ (.cons rfl ?_ (.cons rfl nofun (.cons rfl ?_
      (.cons rfl nofun (.cons rfl ?_ (.cons rfl ?_ trivial)))))))))
    · rintro _ _ _ _ ⟨⟩ ⟨⟩
    · rintro _ _ _ _ ⟨⟩ ⟨⟩
    · rintro _ _ _ _ ⟨⟩ ⟨⟩
    · rintro _ _ _ _ ⟨⟩ ⟨⟩
    · rintro _ _ _ _ ⟨⟩ ⟨⟩
    · rintro _ _ _ _ ⟨⟩ ⟨⟩ ⟨⟩
      exact Or.inl (Nat.le_succ 1)
  have hrun : ∃ s, run nextSite (.start emptyServer) freshRun = some s := ⟨_, rfl⟩
  obtain ⟨s, hs⟩ := hrun
  exact ⟨hfresh, (cache_exact_iff emptyServer freshRun s hs).2 hfresh⟩

/-- The late commit puts the evicted row back under metadata of a version that does not have it. -/
theorem evicted_row_returns : ¬∀ p as s, run nextSite (.start p) as = some s → Exact s := by
  intro h
  have hrun : ∃ s, run nextSite (.start emptyServer) lateRun = some s ∧ s.cache.metadata.map Metadata.version = some 3 ∧
      s.cache.rows "8.8.8.8" ≠ none ∧ (s.past 3).rows.get? "8.8.8.8" = none :=
    ⟨_, rfl, rfl, by decide, by decide⟩
  obtain ⟨s, hs, hm, hrow, hpast⟩ := hrun
  have he := h emptyServer lateRun s hs
  unfold Exact at he
  obtain ⟨m, hm, hv⟩ := Option.map_eq_some_iff.1 hm
  simp only [hm, hv] at he
  rw [he] at hrow
  exact hrow hpast

end Gwsdb.Web
