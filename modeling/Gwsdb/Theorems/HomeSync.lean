import Gwsdb.Lemmas.HomeServer

/-!
# The home page against the site

The tabs of the home page, the requests they make and the writes of the site, in any order. The databases of the browsers hold the
pool of the version in their metadata as long as each commit of changes is of a version not before it, or finds all its rows
(`home_caches_exact_iff`). Then every tab shows the pool of one moment, and a load that ends shows one that the site had after the
tab was opened, or had then (`home_shows_pool`).
-/

namespace Gwsdb.Web

open Gwsdb.Store
open Interleave (Run)
open Keyed (Table)
open Transition (run Meets)

variable {r : Run start serve}

/-! ## The statements -/

/-- A commit of changes finds metadata that is not newer than they are, or every one of their rows in the database. -/
def CommitsKnown (w : HomeWorld) (a : HomeAct) : Prop :=
  ∀ i t data m, a = .tab i .written → w.tabs[i]? = some t → t.stage = .merge data → (w.caches t.browser).metadata = some m →
    m.version ≤ data.metadata.version ∨ ∀ row ∈ data.ips, (w.caches t.browser).rows row.ip ≠ none

/-- What is shown is the pool of a moment up to `n`, with its version. -/
def ShownOf (r : Run start serve) (n : Nat) (s : Shown) : Prop :=
  ∃ k ≤ n, (r.state k).db.version = s.metadata.version ∧ s.rows = (r.state k).db.joined

/-- The databases of all browsers are exact. -/
def HomeExact (r : Run start serve) (w : HomeWorld) : Prop := ∀ browser, CacheOf r w.pool.now (w.caches browser)

/-! ## Moves of a tab -/

/-- A page asks the pool without parameters. -/
theorem nextPool_askPool (site : Nat → Store.Site) (pool : PoolWorld) (edgeHit totalsHit : Bool) :
    nextPool site pool (.ask [] edgeHit totalsHit) = some (pool.ask edgeHit totalsHit) := rfl

/-- What a step of a tab does. -/
inductive HomeTab.Move (r : Run start serve) (t : HomeTab) (pool : PoolWorld) (c : Cache) : HomeTab → PoolWorld → Cache → Prop
  | opened (hs : t.stage = .opening) : Move r t pool c { t with stage := .reading } pool c
  | asked (edgeHit totalsHit : Bool) (stage : LoadStage) (hs : t.stage ≠ .done)
      (hstage : stage = .fetchFull pool.requests.length ∨ stage = .fetchAlone pool.requests.length) :
      Move r t pool c { t with stage } (pool.ask edgeHit totalsHit) c
  | found (s : Shown) (hs : t.stage = .reading) (hc : c.read = some s) :
      Move r t pool c
        { t with
          cached := some s.metadata.version, shown := some s, stage := .fetchChanges s.metadata.version pool.now } pool c
  | same (since began j : Nat) (edgeHit totalsHit : Bool) (data : PoolData) (hs : t.stage = .fetchChanges since began)
      (ht : ∃ hist, (r.config pool.now).threads[j]? = some ⟨.changes since edgeHit totalsHit, .ret (.changes data), hist⟩)
      (hj : (r.config began).threads.length ≤ j)
        (hv : data.metadata.version = since) : Move r t pool c { t with stage := .done } pool c
  | changed (since began j : Nat) (edgeHit totalsHit : Bool) (data : PoolData) (hs : t.stage = .fetchChanges since began)
      (ht : ∃ hist, (r.config pool.now).threads[j]? = some ⟨.changes since edgeHit totalsHit, .ret (.changes data), hist⟩)
      (hj : (r.config began).threads.length ≤ j) : Move r t pool c { t with stage := .merge data } pool c
  | received (i : Nat) (q : PoolRequest) (data : PoolData) (hs : t.stage = .fetchFull i) (hq : pool.requests[i]? = some q)
      (hdata : q.prog = .ret (.full data)) : Move r t pool c { t with stage := .writeFull data } pool c
  | alone (i : Nat) (q : PoolRequest) (data : PoolData) (hs : t.stage = .fetchAlone i) (hq : pool.requests[i]? = some q)
      (hdata : q.prog = .ret (.full data)) :
      Move r t pool c { t with shown := some ⟨data.metadata, storeOf data.ips⟩, stage := .done } pool c
  | wrote (data : PoolData) (hs : t.stage = .writeFull data) : Move r t pool c
    { t with stage := .rereading } pool (writeFullCache c data)
  | merged (data : PoolData) (hs : t.stage = .merge data) : Move r t pool c
    { t with stage := .rereading } pool (applyChanges c data)
  | reread (hs : t.stage = .rereading) : Move r t pool c (t.finish c.read) pool c
  | failed (hs : t.stage ≠ .done) : Move r t pool c { t with stage := .failed } pool c

/-- Every step of a tab is one of these. A commit is the step `written`. -/
theorem HomeTab.next_move {t t' : HomeTab} {pool pool' : PoolWorld} {c c' : Cache} {a : LoadAct}
    (h : t.next r pool c a = some (t', pool', c')) : t.Move r pool c t' pool' c' ∧ (a ≠ .written → c' = c) := by
  cases a with
  | opened =>
    rw [next] at h
    split at h
    · cases h
      exact ⟨.opened ‹_›, fun _ => rfl⟩
    · cases h
  | unavailable edgeHit totalsHit =>
    rw [next] at h
    split at h
    · rename_i hs
      cases h
      exact ⟨.asked edgeHit totalsHit _ (by rw [hs]; nofun) (.inr rfl), fun _ => rfl⟩
    · rename_i hs
      cases h
      exact ⟨.asked edgeHit totalsHit _ (by rw [hs]; nofun) (.inr rfl), fun _ => rfl⟩
    · cases h
  | read edgeHit totalsHit =>
    rw [next] at h
    split at h
    · rename_i hs
      split at h
      · cases h
        exact ⟨.asked edgeHit totalsHit _ (by rw [hs]; nofun) (.inl rfl), fun _ => rfl⟩
      · rename_i s hread
        cases h
        exact ⟨.found s hs hread, fun _ => rfl⟩
    · cases h
  | answered j edgeHit totalsHit =>
    rw [next] at h
    split at h
    · rename_i since began hs
      split at h
      · rename_i since' edgeHit' totalsHit' response hist ht
        split at h
        · rename_i hj
          obtain ⟨hj, rfl⟩ := hj
          cases response with
          | reset version =>
            cases h
            exact ⟨.asked edgeHit totalsHit _ (by rw [hs]; nofun) (.inl rfl), fun _ => rfl⟩
          | changes data =>
            rw [syncCache] at h
            split at h
            · cases h
              exact ⟨.same since' began j edgeHit' totalsHit' data hs ⟨hist, ht⟩ hj ‹_›, fun _ => rfl⟩
            · cases h
              exact ⟨.changed since' began j edgeHit' totalsHit' data hs ⟨hist, ht⟩ hj, fun _ => rfl⟩
          | _ =>
            cases h
            exact ⟨.failed (by rw [hs]; nofun), fun _ => rfl⟩
        · cases h
      · cases h
    · cases h
  | received =>
    rw [next] at h
    split at h
    · rename_i i hs
      split at h
      · rename_i data hget
        obtain ⟨q, hq, hanswer⟩ := Option.bind_eq_some_iff.mp hget
        cases h
        exact ⟨.received i q data hs hq (Interleave.Prog.answer?_eq_some hanswer), fun _ => rfl⟩
      · cases h
        exact ⟨.failed (by rw [hs]; nofun), fun _ => rfl⟩
      · cases h
    · rename_i i hs
      split at h
      · rename_i data hget
        obtain ⟨q, hq, hanswer⟩ := Option.bind_eq_some_iff.mp hget
        cases h
        exact ⟨.alone i q data hs hq (Interleave.Prog.answer?_eq_some hanswer), fun _ => rfl⟩
      · cases h
        exact ⟨.failed (by rw [hs]; nofun), fun _ => rfl⟩
      · cases h
    · cases h
  | written =>
    rw [next] at h
    split at h
    · rename_i data hs
      cases h
      exact ⟨.wrote data hs, fun hne => absurd rfl hne⟩
    · rename_i data hs
      cases h
      exact ⟨.merged data hs, fun hne => absurd rfl hne⟩
    · cases h
  | reread =>
    rw [next] at h
    split at h
    · cases h
      exact ⟨.reread ‹_›, fun _ => rfl⟩
    · cases h
  | fail =>
    rw [next] at h
    split at h
    · cases h
    · rename_i hs
      cases h
      exact ⟨.failed hs, fun _ => rfl⟩

/-! ## What a tab holds -/

/-- The second cache has metadata that is at least as new as that of the first. -/
def Cache.Newer (c c' : Cache) : Prop := ∀ m, c.metadata = some m → ∃ m', c'.metadata = some m' ∧ m.version ≤ m'.version

/-- A cache is as new as itself. -/
theorem Cache.Newer.refl (c : Cache) : c.Newer c := fun m hm => ⟨m, hm, le_refl _⟩

/-- A full answer never takes the cache back. -/
theorem writeFullCache_newer (c : Cache) (data : PoolData) :
    c.Newer (writeFullCache c data) ∧ ∃ m, (writeFullCache c data).metadata = some m ∧ data.metadata.version ≤ m.version := by
  unfold writeFullCache
  cases hm : c.metadata with
  | none =>
    refine ⟨fun m h => ?_, data.metadata, rfl, le_refl _⟩
    rw [hm] at h
    cases h
  | some current =>
    simp only
    split
    · rename_i hlt
      exact ⟨Cache.Newer.refl c, current, hm, hlt.le⟩
    · rename_i hle
      refine ⟨fun m h => ⟨data.metadata, rfl, ?_⟩, data.metadata, rfl, le_refl _⟩
      rw [hm] at h
      cases h
      exact not_lt.mp hle

/-- Nor do changes. -/
theorem applyChanges_newer_metadata (c : Cache) (data : PoolData) :
    c.Newer (applyChanges c data) ∧ ∃ m, (applyChanges c data).metadata = some m ∧ data.metadata.version ≤ m.version := by
  unfold applyChanges
  cases hm : c.metadata with
  | none =>
    refine ⟨fun m h => ?_, data.metadata, rfl, le_refl _⟩
    rw [hm] at h
    cases h
  | some current =>
    simp only
    split
    · rename_i hle
      refine ⟨fun m h => ⟨data.metadata, rfl, ?_⟩, data.metadata, rfl, le_refl _⟩
      rw [hm] at h
      cases h
      exact hle
    · rename_i hlt
      refine ⟨fun m h => ⟨current, rfl, ?_⟩, current, rfl, (not_le.mp hlt).le⟩
      rw [hm] at h
      cases h
      exact le_refl _

/-- The stage of a load of a tab opened at moment `o`, the endpoint and the database of its browser being as they are: requests
are the tab's own, bodies are exact, and no version is before the one the site had at the beginning. -/
def StageHolds (r : Run start serve) (o : Nat) (pool : PoolWorld) (c : Cache) : LoadStage → Prop
  | .fetchChanges since began => o ≤ began ∧ began ≤ pool.now ∧ (∃ m, c.metadata = some m ∧ since ≤ m.version) ∧
      ∃ k ≤ pool.now, (r.state k).db.version = since
  | .fetchFull i | .fetchAlone i => ∃ q, pool.requests[i]? = some q ∧ q.params = [] ∧ o ≤ q.began
  | .writeFull data => FullOf r pool.now data ∧ (r.state o).db.version ≤ data.metadata.version
  | .merge data => (r.state o).db.version ≤ data.metadata.version ∧
      ∃ since, (∃ m, c.metadata = some m ∧ since ≤ m.version) ∧ (∃ k ≤ pool.now, (r.state k).db.version = since) ∧
        Answered r pool.now since data
  | .rereading => ∃ m, c.metadata = some m ∧ (r.state o).db.version ≤ m.version
  | _ => True

/-- What a tab shows is exact; until it is done it shows the version it found, if any, and then one
at least that of its opening. -/
structure TabGood (r : Run start serve) (pool : PoolWorld) (c : Cache) (t : HomeTab) : Prop where
  opened : t.opened ≤ pool.now
  shown : ∀ s, t.shown = some s → ShownOf r pool.now s
  found : t.stage ≠ .done → ∀ v, t.cached = some v → ∃ s, t.shown = some s ∧ s.metadata.version = v
  fetches : ∀ since began, t.stage = .fetchChanges since began → t.cached = some since
  stage : StageHolds r t.opened pool c t.stage
  done : t.stage = .done → ∃ s, t.shown = some s ∧ (r.state t.opened).db.version ≤ s.metadata.version

/-- What a stage holds, it holds of a later pool. -/
theorem StageHolds.mono {o : Nat} {pool pool' : PoolWorld} {c c' : Cache} {stage : LoadStage}
    (hpool : pool.Later pool') (hc : c.Newer c')
    (h : StageHolds r o pool c stage) : StageHolds r o pool' c' stage := by
  have hreached : ∀ {since : Nat}, (∃ k ≤ pool.now, (r.state k).db.version = since) →
      ∃ k ≤ pool'.now, (r.state k).db.version = since :=
    fun ⟨k, hk, hv⟩ => ⟨k, hk.trans hpool.now, hv⟩
  have hmeta : ∀ {v : Nat}, (∃ m, c.metadata = some m ∧ v ≤ m.version) → ∃ m, c'.metadata = some m ∧ v ≤ m.version := by
    rintro v ⟨m, hm, hle⟩
    obtain ⟨m', hm', hle'⟩ := hc m hm
    exact ⟨m', hm', hle.trans hle'⟩
  have hrequest : ∀ {i : Nat}, (∃ q, pool.requests[i]? = some q ∧ q.params = [] ∧ o ≤ q.began) →
      ∃ q, pool'.requests[i]? = some q ∧ q.params = [] ∧ o ≤ q.began := by
    rintro i ⟨q, hq, hparams, ho⟩
    obtain ⟨q', hq', hparams', hbegan⟩ := hpool.requests i q hq
    exact ⟨q', hq', hparams'.trans hparams, ho.trans hbegan.ge⟩
  cases stage with
  | fetchChanges since began =>
    obtain ⟨ho, hbegan, hcached, hseen⟩ := h
    exact ⟨ho, hbegan.trans hpool.now, hmeta hcached, hreached hseen⟩
  | fetchFull i => exact hrequest h
  | fetchAlone i => exact hrequest h
  | writeFull data =>
    obtain ⟨⟨k, hk, hdata⟩, hv⟩ := h
    exact ⟨⟨k, hk.trans hpool.now, hdata⟩, hv⟩
  | merge data =>
    obtain ⟨hv, since, hcached, hseen, hdata⟩ := h
    exact ⟨hv, since, hmeta hcached, hreached hseen, hdata.mono hpool.now⟩
  | rereading => exact hmeta h
  | _ => trivial

/-- What was shown of a run was shown of it later. -/
theorem ShownOf.mono {n n' : Nat} {s : Shown} (hn : n ≤ n') (h : ShownOf r n s) : ShownOf r n' s := by
  obtain ⟨k, hk, hs⟩ := h
  exact ⟨k, hk.trans hn, hs⟩

/-- A tab in order stays in order as pool and cache go on. -/
theorem TabGood.mono {pool pool' : PoolWorld} {c c' : Cache} {t : HomeTab} (hpool : pool.Later pool') (hc : c.Newer c')
    (h : TabGood r pool c t) : TabGood r pool' c' t where
  opened := h.opened.trans hpool.now
  shown s hs := (h.shown s hs).mono hpool.now
  found := h.found
  fetches := h.fetches
  stage := h.stage.mono hpool hc
  done := h.done

/-- A tab at another stage that is not the end, nor a fetch of changes. -/
theorem TabGood.setStage {pool pool' : PoolWorld} {c c' : Cache} {t : HomeTab} (h : TabGood r pool c t) (hpool : pool.Later pool')
    {stage : LoadStage} (hs : t.stage ≠ .done) (hne : stage ≠ .done) (hnf : ∀ since began, stage ≠ .fetchChanges since began)
    (hstage : StageHolds r t.opened pool' c' stage) : TabGood r pool' c' { t with stage } where
  opened := h.opened.trans hpool.now
  shown s hs := (h.shown s hs).mono hpool.now
  found _ := h.found hs
  fetches since began heq := absurd heq (hnf since began)
  stage := hstage
  done heq := absurd heq hne

/-- What `readCache` finds in an exact database is exact. -/
theorem shownOf_read {n : Nat} {c : Cache} (hc : CacheOf r n c) {s : Shown} (hread : c.read = some s) :
    c.metadata = some s.metadata ∧ ShownOf r n s := by
  obtain ⟨m, hm, rfl⟩ := Option.map_eq_some_iff.mp hread
  obtain ⟨k, hk, hv, hrows⟩ := hc.rows m hm
  exact ⟨hm, k, hk, hv, hrows⟩

/-- A full answer to a request of the tab's own is the pool of a moment since the tab was opened. -/
theorem fullOf_request {o i : Nat} {pool : PoolWorld} {q : PoolRequest} {data : PoolData}
    (h : ∃ q, pool.requests[i]? = some q ∧ q.params = [] ∧ o ≤ q.began) (hserved : PoolServed r pool)
    (hq : pool.requests[i]? = some q) (hdata : q.prog = .ret (.full data)) :
    FullOf r pool.now data ∧ (r.state o).db.version ≤ data.metadata.version := by
  obtain ⟨q', hq', hparams, ho⟩ := h
  rw [hq] at hq'
  cases hq'
  obtain ⟨-, hserving⟩ := hserved.requests q (List.mem_of_getElem? hq)
  rw [hdata, hparams] at hserving
  obtain ⟨hfull, hversion⟩ := hserving.answer.fullOf
  exact ⟨hfull, (version_mono r ho).trans hversion⟩

/-- A move keeps a tab good, and the database gets no older. -/
theorem HomeTab.Move.good (hedge : (r.state 0).edge = Table.empty) {t t' : HomeTab} {pool pool' : PoolWorld} {c c' : Cache}
    (h : t.Move r pool c t' pool' c') (hserved : PoolServed r pool) (hc : CacheOf r pool.now c) (ht : TabGood r pool c t) :
    TabGood r pool' c' t' ∧ c.Newer c' ∧ PoolServed r pool' ∧ pool.Later pool' := by
  have hstage := ht.stage
  cases h with
  | opened hs =>
    exact ⟨ht.setStage (PoolWorld.Later.refl _) (by rw [hs]; nofun) nofun nofun trivial, Cache.Newer.refl c, hserved,
      PoolWorld.Later.refl _⟩
  | asked edgeHit totalsHit stage hs hstage' =>
    have hlater : pool.Later (pool.ask edgeHit totalsHit) := nextPool_later (nextPool_askPool r.state pool edgeHit totalsHit)
    have hrequest : ∃ q, (pool.ask edgeHit totalsHit).requests[pool.requests.length]? = some q ∧
        q.params = [] ∧ t.opened ≤ q.began :=
      ⟨⟨pool.now, [], handlePool [] edgeHit totalsHit⟩, by simp [PoolWorld.ask], rfl, ht.opened⟩
    refine ⟨?_, Cache.Newer.refl c, hserved.next (nextPool_askPool r.state pool edgeHit totalsHit), hlater⟩
    rcases hstage' with rfl | rfl
    · exact ht.setStage hlater hs nofun nofun hrequest
    · exact ht.setStage hlater hs nofun nofun hrequest
  | found s hs hread =>
    obtain ⟨hm, hshown⟩ := shownOf_read hc hread
    refine ⟨⟨ht.opened, fun s' hs' => ?_, fun _ v hv => ⟨s, rfl, Option.some.inj hv⟩, fun since began heq => ?_, ?_, nofun⟩,
      Cache.Newer.refl c, hserved, PoolWorld.Later.refl _⟩
    · cases hs'
      exact hshown
    · cases heq
      rfl
    · obtain ⟨k, hk, hv, -⟩ := hshown
      exact ⟨ht.opened, le_refl _, ⟨s.metadata, hm, le_refl _⟩, k, hk, hv⟩
  | same since began j edgeHit totalsHit data hs hthread hj hv =>
    obtain ⟨hist, hthread⟩ := hthread
    rw [hs] at hstage
    obtain ⟨ho, hbegan, -, -⟩ := hstage
    obtain ⟨-, hversion⟩ := changes_answered hedge hbegan hthread hj
    obtain ⟨s, hshown, hsame⟩ := ht.found (by rw [hs]; nofun) since (ht.fetches since began hs)
    refine ⟨⟨ht.opened, ht.shown, fun hne => absurd rfl hne, nofun, trivial, fun _ => ⟨s, hshown, ?_⟩⟩, Cache.Newer.refl c,
      hserved,
      PoolWorld.Later.refl _⟩
    rw [hsame, ← hv]
    exact (version_mono r ho).trans hversion
  | changed since began j edgeHit totalsHit data hs hthread hj =>
    obtain ⟨hist, hthread⟩ := hthread
    rw [hs] at hstage
    obtain ⟨ho, hbegan, hcached, hseen⟩ := hstage
    obtain ⟨hanswered, hversion⟩ := changes_answered hedge hbegan hthread hj
    exact ⟨ht.setStage (PoolWorld.Later.refl _) (by rw [hs]; nofun) nofun nofun
      ⟨(version_mono r ho).trans hversion, since, hcached, hseen, hanswered⟩, Cache.Newer.refl c, hserved, PoolWorld.Later.refl _⟩
  | received i q data hs hq hdata =>
    rw [hs] at hstage
    exact ⟨ht.setStage (PoolWorld.Later.refl _) (by rw [hs]; nofun) nofun nofun (fullOf_request hstage hserved hq hdata),
      Cache.Newer.refl c, hserved, PoolWorld.Later.refl _⟩
  | alone i q data hs hq hdata =>
    rw [hs] at hstage
    obtain ⟨hfull, hversion⟩ := fullOf_request hstage hserved hq hdata
    refine ⟨⟨ht.opened, fun s hshown => ?_, fun hne => absurd rfl hne, nofun, trivial, fun _ => ⟨_, rfl, hversion⟩⟩,
      Cache.Newer.refl c, hserved, PoolWorld.Later.refl _⟩
    cases hshown
    exact hfull
  | wrote data hs =>
    rw [hs] at hstage
    obtain ⟨-, hversion⟩ := hstage
    obtain ⟨hnewer, m, hm, hle⟩ := writeFullCache_newer c data
    exact ⟨ht.setStage (PoolWorld.Later.refl _) (by rw [hs]; nofun) nofun nofun ⟨m, hm, hversion.trans hle⟩, hnewer, hserved,
      PoolWorld.Later.refl _⟩
  | merged data hs =>
    rw [hs] at hstage
    obtain ⟨hversion, -⟩ := hstage
    obtain ⟨hnewer, m, hm, hle⟩ := applyChanges_newer_metadata c data
    exact ⟨ht.setStage (PoolWorld.Later.refl _) (by rw [hs]; nofun) nofun nofun ⟨m, hm, hversion.trans hle⟩, hnewer, hserved,
      PoolWorld.Later.refl _⟩
  | reread hs =>
    rw [hs] at hstage
    obtain ⟨m, hm, hversion⟩ := hstage
    have hread : c.read = some ⟨m, c.rows⟩ := by rw [Cache.read, hm]; rfl
    obtain ⟨-, hshown⟩ := shownOf_read hc hread
    refine ⟨?_, Cache.Newer.refl c, hserved, PoolWorld.Later.refl _⟩
    rw [hread]
    unfold HomeTab.finish
    simp only
    split
    · rename_i hcached
      obtain ⟨s, hs', hsame⟩ := ht.found (by rw [hs]; nofun) _ hcached
      exact ⟨ht.opened, ht.shown, fun hne => absurd rfl hne, nofun, trivial, fun _ => ⟨s, hs', hsame ▸ hversion⟩⟩
    · refine ⟨ht.opened, fun s hs' => ?_, fun hne => absurd rfl hne, nofun, trivial, fun _ => ⟨_, rfl, hversion⟩⟩
      cases hs'
      exact hshown
  | failed hs =>
    exact ⟨ht.setStage (PoolWorld.Later.refl _) hs nofun nofun trivial, Cache.Newer.refl c, hserved, PoolWorld.Later.refl _⟩

/-! ## Steps -/

/-- The endpoint is served, the databases are exact, and the tabs are good. -/
structure HomeGood (r : Run start serve) (w : HomeWorld) : Prop where
  served : PoolServed r w.pool
  exact : HomeExact r w
  tabs : ∀ t ∈ w.tabs, TabGood r w.pool (w.caches t.browser) t

/-- An empty home is in order. -/
theorem homeGood_empty : HomeGood r .empty where
  served := poolServed_empty
  exact := fun _ => ⟨fun _ => rfl, nofun⟩
  tabs := nofun

/-- A step of a tab: the tab, its move, and the world after it. -/
theorem nextHome_tab {w w' : HomeWorld} {i : Nat} {a : LoadAct} (h : nextHome r w (.tab i a) = some w') :
    ∃ t t' pool c, w.tabs[i]? = some t ∧ t.next r w.pool (w.caches t.browser) a = some (t', pool, c) ∧
      w' = { w with pool, caches := Function.update w.caches t.browser c, tabs := w.tabs.set i t' } := by
  obtain ⟨t, hget, h⟩ := Option.bind_eq_some_iff.mp h
  obtain ⟨⟨t', pool, c⟩, hnext, h⟩ := Option.bind_eq_some_iff.mp h
  exact ⟨t, t', pool, c, hget, hnext, (Option.some.inj h).symm⟩

/-- A tab stays in its browser. -/
theorem HomeTab.Move.browser_eq {t t' : HomeTab} {pool pool' : PoolWorld} {c c' : Cache} (h : t.Move r pool c t' pool' c') :
    t'.browser = t.browser := by
  cases h with
  | reread hs =>
    unfold HomeTab.finish
    split
    · rfl
    · split <;> rfl
  | _ => rfl

/-- From a good world, a step leads to one with exact databases exactly when it commits what is known, and then to a good one. -/
theorem nextHome_good (hedge : (r.state 0).edge = Table.empty) {w w' : HomeWorld} {a : HomeAct} (h : nextHome r w a = some w')
    (hw : HomeGood r w) : (CommitsKnown w a → HomeGood r w') ∧ (HomeExact r w' → CommitsKnown w a) := by
  cases a with
  | pool a =>
    obtain ⟨pool, hpool, rfl⟩ := Option.map_eq_some_iff.mp h
    have hlater : w.pool.Later pool := nextPool_later hpool
    refine ⟨fun _ => ⟨hw.served.next hpool, fun browser => (hw.exact browser).mono hlater.now, fun t ht => ?_⟩, ?_⟩
    · exact (hw.tabs t ht).mono hlater (Cache.Newer.refl _)
    · rintro - i t data m ⟨⟩
  | openTab browser =>
    cases h
    refine ⟨fun _ => ⟨hw.served, hw.exact, fun t ht => ?_⟩, ?_⟩
    · rcases List.mem_append.mp ht with ht | ht
      · exact hw.tabs t ht
      · rw [List.mem_singleton.mp ht]
        exact ⟨le_refl _, nofun, nofun, nofun, trivial, nofun⟩
    · rintro - i t data m ⟨⟩
  | tab i a =>
    obtain ⟨t, t', pool, c, hget, hnext, rfl⟩ := nextHome_tab h
    have ht : TabGood r w.pool (w.caches t.browser) t := hw.tabs t (List.mem_of_getElem? hget)
    obtain ⟨hmove, hsame⟩ := HomeTab.next_move hnext
    obtain ⟨htab, hnewer, hserved, hlater⟩ := hmove.good hedge hw.served (hw.exact t.browser) ht
    have hgood : CacheOf r pool.now c →
        HomeGood r { w with pool, caches := Function.update w.caches t.browser c, tabs := w.tabs.set i t' } := by
      intro hc
      refine ⟨hserved, fun browser => ?_, fun u hu => ?_⟩
      · show CacheOf r pool.now (Function.update w.caches t.browser c browser)
        by_cases hb : browser = t.browser
        · rw [hb, Function.update_self]
          exact hc
        · rw [Function.update_of_ne hb]
          exact (hw.exact browser).mono hlater.now
      · show TabGood r pool (Function.update w.caches t.browser c u.browser) u
        rcases List.mem_or_eq_of_mem_set hu with hu | rfl
        · by_cases hb : u.browser = t.browser
          · rw [hb, Function.update_self]
            exact (hb ▸ hw.tabs u hu).mono hlater hnewer
          · rw [Function.update_of_ne hb]
            exact (hw.tabs u hu).mono hlater (Cache.Newer.refl _)
        · rw [hmove.browser_eq, Function.update_self]
          exact htab
    have hstage := ht.stage
    by_cases ha : a = .written
    · subst ha
      rw [HomeTab.next] at hnext
      split at hnext
      · rename_i data hs
        cases hnext
        rw [hs] at hstage
        obtain ⟨hfull, -⟩ := hstage
        have hcache := hgood ((hw.exact t.browser).writeFull hfull)
        refine ⟨fun _ => hcache, ?_⟩
        rintro - j u data' m ⟨⟩ hj hs' -
        rw [hget] at hj
        cases hj
        rw [hs] at hs'
        cases hs'
      · rename_i data hs
        cases hnext
        rw [hs] at hstage
        obtain ⟨-, since, ⟨m, hm, hle⟩, hseen, hanswered⟩ := hstage
        have hiff := (hw.exact t.browser).merge_iff hm hle hseen hanswered
        constructor
        · exact fun hknown => hgood (hiff.mpr (hknown i t data m rfl hget hs hm))
        · rintro hexact j u data' m' ⟨⟩ hj hs' hm'
          rw [hget] at hj
          cases hj
          rw [hs] at hs'
          cases hs'
          rw [hm] at hm'
          cases hm'
          have hcache : CacheOf r w.pool.now (Function.update w.caches t.browser
              (applyChanges (w.caches t.browser) data) t.browser) :=
            hexact t.browser
          rw [Function.update_self] at hcache
          exact hiff.mp hcache
      · cases hnext
    · -- only a commit has a condition to meet
      refine ⟨fun _ => hgood ?_, fun _ j u data m heq => ?_⟩
      · rw [hsame ha]
        exact (hw.exact t.browser).mono hlater.now
      · cases heq
        exact absurd rfl ha

/-! ## The main results -/

/-- For any number of browsers and tabs, and any interleaving of their steps with the requests and writes of the site: the
databases are exact at every moment if and only if every commit of changes is of a version not before that of its database,
or finds all its rows there. -/
theorem home_caches_exact_iff (hedge : (r.state 0).edge = Table.empty) {acts : List HomeAct} {w : HomeWorld}
    (hrun : run (nextHome r) .empty acts = some w) :
    (∀ bs v, bs <+: acts → run (nextHome r) .empty bs = some v → HomeExact r v) ↔
        Meets (nextHome r) CommitsKnown .empty acts := by
  have hE : ∀ w a w', nextHome r w a = some w' → HomeGood r w → (HomeExact r w' ↔ CommitsKnown w a) := by
    intro w a w' h hw
    exact ⟨(nextHome_good hedge h hw).2, fun hknown => ((nextHome_good hedge h hw).1 hknown).exact⟩
  have hI : ∀ w a w', nextHome r w a = some w' → CommitsKnown w a → HomeGood r w → HomeGood r w' := by
    intro w a w' h hknown hw
    exact (nextHome_good hedge h hw).1 hknown
  exact Transition.always_iff_meets (fun w hw => hw.exact) hE hI hrun homeGood_empty

/-- In every such run: a tab shows the pool of one moment, with its version; and where its load has ended without an error, the
version is at least the one the site had when the tab was opened. -/
theorem home_shows_pool (hedge : (r.state 0).edge = Table.empty) {acts : List HomeAct} {w : HomeWorld}
    (hrun : run (nextHome r) .empty acts = some w) (hknown : Meets (nextHome r) CommitsKnown .empty acts)
    {t : HomeTab} (ht : t ∈ w.tabs) :
    (∀ s, t.shown = some s → ∃ k ≤ w.pool.now, (r.state k).db.version = s.metadata.version ∧ s.rows = (r.state k).db.joined) ∧
      (t.stage = .done → ∃ s, t.shown = some s ∧ (r.state t.opened).db.version ≤ s.metadata.version) := by
  have hw : HomeGood r w :=
    Transition.invariant_of_meets (I := HomeGood r)
      (fun _ _ _ h hc hs => (nextHome_good hedge h hs).1 hc) hrun hknown homeGood_empty
  exact ⟨(hw.tabs t ht).shown, (hw.tabs t ht).done⟩

/-! ### Two visits -/

/-- A first tab fetches the whole pool, which is empty. -/
def firstTab : List HomeAct :=
  [.openTab 0, .tab 0 .opened, .tab 0 (.read true true)] ++ List.replicate 9 (.pool (.call 0)) ++ [.tab 0 .received]

/-- A second tab finds the empty pool, and its request for the changes is answered after the first check was saved. -/
def secondTab : List HomeAct :=
  [.tab 0 .reread, .pool .tick, .pool .tick, .openTab 0, .tab 1 .opened, .tab 1 (.read true true)] ++
    List.replicate 15 (.pool .tick) ++
    [.tab 1 (.answered 1 true true)]

def twoVisits : List HomeAct := firstTab ++ ([.tab 0 .written] ++ secondTab) ++ [.tab 1 .written, .tab 1 .reread]

/-- Steps that commit nothing meet the condition. -/
theorem meets_of_noCommit {as : List HomeAct} (h : ∀ a ∈ as, ∀ i, a ≠ .tab i .written) (w : HomeWorld) :
    Meets (nextHome r) CommitsKnown w as := by
  refine Meets.of_invariant (I := fun _ => True) (fun _ _ _ _ _ _ => trivial) ?_ (Meets.of_forall h w) trivial
  intro w a _ ha i t data m heq
  exact absurd heq (ha i)

/-- Two visits commit what is known. -/
theorem twoVisits_known : Meets (nextHome firstRun) CommitsKnown .empty twoVisits := by
  have hfirst : ((run (nextHome firstRun) .empty firstTab).bind fun w => w.tabs[0]?.map HomeTab.stage) =
      some (.writeFull ⟨⟨0, some 0, "", 0, 0, "-"⟩, []⟩) := by decide +kernel
  have hsecond : ((run (nextHome firstRun) .empty (firstTab ++ ([.tab 0 .written] ++ secondTab))).bind fun w =>
      w.tabs[1]?.map fun t => (t.stage, (w.caches t.browser).metadata.map Metadata.version)) =
          some (.merge firstAnswer, some 0) := by
    decide +kernel
  have hopen : Meets (nextHome firstRun) CommitsKnown .empty firstTab := meets_of_noCommit (by simp [firstTab]) _
  have hvisit : Meets (nextHome firstRun) CommitsKnown .empty (firstTab ++ ([.tab 0 .written] ++ secondTab)) := by
    refine hopen.append fun w hw => ⟨?_, fun w' _ => meets_of_noCommit (by simp [secondTab]) w'⟩
    rintro i t data m ⟨⟩ hget hs -
    rw [hw, Option.bind_some, hget, Option.map_some, hs] at hfirst
    cases hfirst
  refine hvisit.append fun w hw => ⟨?_, fun w' _ => meets_of_noCommit (by simp) w'⟩
  rintro i t data m ⟨⟩ hget hs hm
  rw [hw, Option.bind_some, hget, Option.map_some, hs, hm] at hsecond
  simp only [Option.map_some, Option.some.injEq, Prod.mk.injEq, LoadStage.merge.injEq] at hsecond
  exact .inl (by rw [hsecond.2]; exact Nat.zero_le _)

/-- So the caches of the two visits are exact. -/
theorem home_caches_exact_iff_visits : (∀ bs v, bs <+: twoVisits →
    run (nextHome firstRun) .empty bs = some v → HomeExact firstRun v) ↔
    Meets (nextHome firstRun) CommitsKnown .empty twoVisits := by
  have hsome : (run (nextHome firstRun) .empty twoVisits).isSome = true := by decide +kernel
  obtain ⟨w, hrun⟩ := Option.isSome_iff_exists.mp hsome
  exact home_caches_exact_iff rfl hrun

/-- The second visit shows the pool. -/
theorem home_shows_pool_visits : ∃ t : HomeTab, t.opened = 2 ∧
    (∀ s, t.shown = some s → ∃ k ≤ 17, (firstRun.state k).db.version = s.metadata.version ∧
      s.rows = (firstRun.state k).db.joined) ∧
      ∃ s, t.shown = some s ∧ (firstRun.state t.opened).db.version ≤ s.metadata.version := by
  have hdone : ((run (nextHome firstRun) .empty twoVisits).bind fun w => w.tabs[1]?.map fun t =>
    (t.stage, t.opened, w.pool.now)) =
      some (.done, 2, 17) := by decide +kernel
  obtain ⟨w, hrun, hget⟩ := Option.bind_eq_some_iff.mp hdone
  obtain ⟨t, ht, heq⟩ := Option.map_eq_some_iff.mp hget
  simp only [Prod.mk.injEq] at heq
  obtain ⟨hstage, hopened, hnow⟩ := heq
  obtain ⟨hshown, hfresh⟩ := home_shows_pool rfl hrun twoVisits_known (List.mem_of_getElem? ht)
  rw [hnow] at hshown
  exact ⟨t, hopened, hshown, hfresh hstage⟩

end Gwsdb.Web
