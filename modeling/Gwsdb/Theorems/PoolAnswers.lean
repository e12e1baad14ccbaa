import Gwsdb.Lemmas.PoolRows
import Gwsdb.Lemmas.SearchParams

/-!
# The answers of the pool endpoint

The endpoint reads the version of the pool, its rows, the totals, and the version again, and keeps its answers in an edge cache
under the URL with the version. Each answer holds the rows of one moment of its request, whatever writes come in between, and
never rows of another family or version that the cache holds.
-/

namespace Gwsdb.Web

open Gwsdb.Store
open Interleave (Run Prog)
open Keyed (Table)
open Transition (run)

/-! ## Keys -/

/-- The key of an entry has the family of the request in it. -/
theorem familyOf_cacheURL (params : SearchParams) (version : Nat) : familyOf (cacheURL params version) = familyOf params := by
  unfold familyOf cacheURL
  rw [SearchParams.get_set_ne _ _ (by decide), SearchParams.get_set_ne _ _ (by decide)]

/-- The key of an entry has the version in it. -/
theorem version_of_cacheURL {params params' : SearchParams} {v v' : Nat} (h : cacheURL params v = cacheURL params' v') : v = v' :=
  version_of_set h

/-! ## One request -/

variable {r : Run start serve}

/-- A body holds the rows that a family had, and the version, at a moment from `m` to `n`. -/
def PoolAnswer (r : Run start serve) (m n : Nat) (family : Option Nat) (data : PoolData) : Prop :=
  ∃ k, m ≤ k ∧ k ≤ n ∧ (r.state k).db.version = data.metadata.version ∧ Lists (r.state k).db family data.ips ∧
    data.metadata.count = some data.ips.length

/-- An answer of some moments is one of more. -/
theorem PoolAnswer.mono {m n n' : Nat} {family : Option Nat} {data : PoolData} (hn : n ≤ n') (h : PoolAnswer r m n family data) :
    PoolAnswer r m n' family data := by
  obtain ⟨k, hmk, hkn, hdata⟩ := h
  exact ⟨k, hmk, hkn.trans hn, hdata⟩

/-- The rows listed at one moment are those of any moment with the version. -/
theorem Lists.of_version {i j : Nat} {family : Option Nat} {ips : List IPRow} (h : Lists (r.state i).db family ips)
    (hv : (r.state j).db.version = (r.state i).db.version) : Lists (r.state j).db family ips := by
  have hsame : shown (r.state j).db family = shown (r.state i).db family := (pool_signal r family).eq (m := j) (n := i) hv
  refine ⟨fun row => ?_, h.nodup⟩
  rw [hsame]
  exact h.rows row

/-- An entry of the edge cache, or one on its way into it, is an answer to the requests that have its key. -/
def Keeps (r : Run start serve) (n : Nat) (key : SearchParams) (data : PoolData) : Prop :=
  ∃ params, key = cacheURL params data.metadata.version ∧ PoolAnswer r 0 n (familyOf params) data

/-- A kept answer is one of the run later as well. -/
theorem Keeps.mono {n n' : Nat} {key : SearchParams} {data : PoolData} (hn : n ≤ n') (h : Keeps r n key data) :
    Keeps r n' key data := by
  obtain ⟨params, hkey, hanswer⟩ := h
  exact ⟨params, hkey, hanswer.mono hn⟩

/-- An entry found under the version of a moment is an answer of that moment. -/
theorem Keeps.answer {n k : Nat} {params : SearchParams} {data : PoolData}
    (h : Keeps r n (cacheURL params (r.state k).db.version) data)
    {m n' : Nat} (hm : m ≤ k) (hn : k ≤ n') : PoolAnswer r m n' (familyOf params) data := by
  obtain ⟨params', hkey, i, -, -, hv, hlists, hcount⟩ := h
  have hversion := version_of_cacheURL hkey
  have hfamily : familyOf params = familyOf params' := by
    rw [← familyOf_cacheURL params (r.state k).db.version, hkey, familyOf_cacheURL]
  rw [hfamily]
  exact ⟨k, hm, hn, hversion, hlists.of_version (hversion.trans hv.symm), hcount⟩

/-- The edge cache holds answers only. -/
structure PoolEdgeExact (r : Run start serve) (n : Nat) (edge : EdgeCaches PoolData) : Prop where
  cached : ∀ key data, edge.cache.get? key = some data → Keeps r n key data
  putting : ∀ key data, (key, data) ∈ edge.puts → Keeps r n key data

/-- So are all the kept answers. -/
theorem PoolEdgeExact.mono {n n' : Nat} {edge : EdgeCaches PoolData} (hn : n ≤ n') (h : PoolEdgeExact r n edge) :
    PoolEdgeExact r n' edge where
  cached key data hdata := (h.cached key data hdata).mono hn
  putting key data hdata := (h.putting key data hdata).mono hn

/-- What is left of a request that began at moment `m`, at a later moment `n`. -/
inductive ServingPool (r : Run start serve) (m n : Nat) (params : SearchParams) : PoolProgram PoolResponse → Prop
  | asked (edgeHit totalsHit : Bool) : ServingPool r m n params (handlePool params edgeHit totalsHit)
  | matching (k : Nat) (hm : m ≤ k) (hn : k ≤ n) (totalsHit : Bool) :
      ServingPool r m n params (cachedPool params (r.state k).db.version totalsHit)
  | loading (k : Nat) (hm : m ≤ k) (hn : k ≤ n) (totalsHit : Bool) :
      ServingPool r m n params (loadPool params (r.state k).db.version totalsHit)
  /-- The rows are read; of the totals, `p` is left. -/
  | counting (k i : Nat) (hm : m ≤ k) (hk : k ≤ i) (hn : i ≤ n) (p : Program Stats) (hp : p.Makes OfOverview) :
      ServingPool r m n params (ofStore p >>=
        recheckPool params (r.state k).db.version ((r.state i).db.listKnownIPs (poolOptions (familyOf params))))
  | putting (data : PoolData) (h : PoolAnswer r m n (familyOf params) data) :
      ServingPool r m n params (putPool (cacheURL params data.metadata.version) data)
  | answered (data : PoolData) (h : PoolAnswer r m n (familyOf params) data) : ServingPool r m n params (.ret (.full data))
  | changed : ServingPool r m n params (.ret .changed)

/-- A request being served is served later as well. -/
theorem ServingPool.mono {m n n' : Nat} {params : SearchParams} {p : PoolProgram PoolResponse} (hn : n ≤ n')
    (h : ServingPool r m n params p) : ServingPool r m n' params p := by
  cases h with
  | asked edgeHit totalsHit => exact .asked edgeHit totalsHit
  | matching k hm hk totalsHit => exact .matching k hm (hk.trans hn) totalsHit
  | loading k hm hk totalsHit => exact .loading k hm (hk.trans hn) totalsHit
  | counting k i hm hk hi p hp => exact .counting k i hm hk (hi.trans hn) p hp
  | putting data h => exact .putting data (h.mono hn)
  | answered data h => exact .answered data (h.mono hn)
  | changed => exact .changed

/-- Rows read between two readings of one version are those of the first. -/
theorem answer_of_reread {k i j m n : Nat} {params : SearchParams} (hm : m ≤ k) (hki : k ≤ i) (hij : i ≤ j) (hn : k ≤ n)
    (hv : (r.state j).db.version = (r.state k).db.version) (stats : Stats) :
    PoolAnswer r m n (familyOf params)
      (poolBody (r.state k).db.version ((r.state i).db.listKnownIPs (poolOptions (familyOf params))) stats) := by
  have hlow := version_mono r hki
  have hhigh := version_mono r hij
  refine ⟨k, hm, hn, rfl, (lists_listKnownIPs (r.state i).db (familyOf params)).of_version (by omega), ?_⟩
  exact congrArg some (List.length_map toIPRow).symm

/-- The next call of a request, answered at moment `n`, and the caches after it. -/
theorem ServingPool.step {m n : Nat} (hmn : m ≤ n) {params : SearchParams} {c : EdgeCall PoolData}
    {k : EdgeReply PoolData c → PoolProgram PoolResponse}
    (h : ServingPool r m n params (.call c k)) {edge : EdgeCaches PoolData} (he : PoolEdgeExact r n edge) :
    ServingPool r m n params (k (answerEdge (r.state n) c edge).1) ∧ PoolEdgeExact r n (answerEdge (r.state n) c edge).2 := by
  generalize hp : (Prog.call c k : PoolProgram PoolResponse) = p at h
  cases h with
  | asked edgeHit totalsHit =>
    cases hp
    refine ⟨?_, he.cached, he.putting⟩
    show ServingPool r m n params (if edgeHit then cachedPool params (r.state n).db.version totalsHit
      else loadPool params (r.state n).db.version totalsHit)
    split
    · exact .matching n hmn (le_refl n) totalsHit
    · exact .loading n hmn (le_refl n) totalsHit
  | matching i hm hn totalsHit =>
    cases hp
    refine ⟨?_, he⟩
    have hreply : (answerEdge (r.state n) (.cacheMatch (cacheURL params (r.state i).db.version)) edge).1 =
      edge.cache.get? (cacheURL params (r.state i).db.version) := rfl
    rw [hreply]
    cases hdata : edge.cache.get? (cacheURL params (r.state i).db.version) with
    | none => exact .loading i hm hn totalsHit
    | some data => exact .answered data ((he.cached _ data hdata).answer hm hn)
  | loading i hm hn totalsHit =>
    cases hp
    exact ⟨.counting i n hm hn (le_refl n) _ (makes_overview totalsHit), he⟩
  | counting i j hm hij hn q hq =>
    cases q with
    | ret stats =>
      cases hp
      refine ⟨?_, he.cached, he.putting⟩
      show ServingPool r m n params (if (r.state n).db.version ≠ (r.state i).db.version then Prog.ret .changed else putPool _ _)
      split
      · exact .changed
      · exact .putting _ (answer_of_reread hm hij hn (hij.trans hn) (not_not.mp ‹_›) stats)
    | fail e => cases hp
    | call e k' =>
      cases hp
      exact ⟨.counting i j hm hij hn _ (hq.2 _), he.cached, he.putting⟩
  | putting data h =>
    cases hp
    refine ⟨.answered data h, he.cached, fun key data' hput => ?_⟩
    rcases List.mem_append.mp hput with hput | hput
    · exact he.putting key data' hput
    · obtain ⟨rfl, rfl⟩ := Prod.mk.inj (List.mem_singleton.mp hput)
      obtain ⟨i, -, hn, hanswer⟩ := h
      exact ⟨params, rfl, i, Nat.zero_le i, hn, hanswer⟩
  | answered data h => cases hp
  | changed => cases hp

/-- The answer a request has come to. -/
theorem ServingPool.answer {m n : Nat} {params : SearchParams} {data : PoolData}
    (h : ServingPool r m n params (.ret (.full data))) :
    PoolAnswer r m n (familyOf params) data := by
  generalize hp : (Prog.ret (PoolResponse.full data) : PoolProgram PoolResponse) = p at h
  cases h with
  | counting k i hm hk hn q hq => cases q <;> cases hp
  | answered data' hdata =>
    cases hp
    exact hdata
  | _ => cases hp

/-! ## All requests -/

/-- The requests are served, and the edge cache holds answers. -/
structure PoolServed (r : Run start serve) (w : PoolWorld) : Prop where
  edge : PoolEdgeExact r w.now w.edge
  requests : ∀ q ∈ w.requests, q.began ≤ w.now ∧ ServingPool r q.began w.now q.params q.prog

/-- Before the first request everything is served. -/
theorem poolServed_empty : PoolServed r .empty := ⟨⟨nofun, nofun⟩, nofun⟩

/-- Every step keeps requests served. -/
theorem PoolServed.next {w w' : PoolWorld} {a : PoolAct} (h : nextPool r.state w a = some w') (hw : PoolServed r w) :
    PoolServed r w' := by
  cases a with
  | tick =>
    cases h
    exact ⟨hw.edge.mono (Nat.le_succ _), fun q hq =>
      ⟨(hw.requests q hq).1.trans (Nat.le_succ _), (hw.requests q hq).2.mono (Nat.le_succ _)⟩⟩
  | ask params edgeHit totalsHit =>
    cases h
    refine ⟨hw.edge, fun q hq => ?_⟩
    rcases List.mem_append.mp hq with hq | hq
    · exact hw.requests q hq
    · rw [List.mem_singleton.mp hq]
      exact ⟨le_refl _, .asked edgeHit totalsHit⟩
  | call i =>
    rw [nextPool] at h
    split at h
    · rename_i began params c k hget
      cases h
      obtain ⟨hbegan, hserving⟩ := hw.requests _ (List.mem_of_getElem? hget)
      obtain ⟨hnext, hedge⟩ := hserving.step hbegan hw.edge
      refine ⟨hedge, fun q hq => ?_⟩
      rcases List.mem_or_eq_of_mem_set hq with hq | rfl
      · exact hw.requests q hq
      · exact ⟨hbegan, hnext⟩
    · cases h
  | settle k =>
    obtain ⟨⟨key, data⟩, hput, rfl⟩ := Option.map_eq_some_iff.mp h
    have hkept := hw.edge.putting key data (List.mem_of_getElem? hput)
    exact ⟨⟨Table.forall_put hw.edge.cached hkept,
      fun key' data' hdata => hw.edge.putting key' data' (List.mem_of_mem_eraseIdx hdata)⟩, hw.requests⟩
  | drop key =>
    cases h
    exact ⟨⟨fun key' data hdata => hw.edge.cached key' data (Table.get?_of_filter hdata), hw.edge.putting⟩, hw.requests⟩
  | share =>
    cases h
    exact ⟨⟨hw.edge.cached, hw.edge.putting⟩, hw.requests⟩
  | expire =>
    cases h
    exact ⟨⟨hw.edge.cached, hw.edge.putting⟩, hw.requests⟩

/-- The second state of the endpoint is the first or a later one: moments go on, and a request stays with its parameters. -/
structure PoolWorld.Later (pool pool' : PoolWorld) : Prop where
  now : pool.now ≤ pool'.now
  requests : ∀ (i : Nat) (q : PoolRequest), pool.requests[i]? = some q →
    ∃ q', pool'.requests[i]? = some q' ∧ q'.params = q.params ∧ q'.began = q.began

/-- A pool is no later than itself. -/
theorem PoolWorld.Later.refl (pool : PoolWorld) : pool.Later pool := ⟨le_refl _, fun _ q hq => ⟨q, hq, rfl, rfl⟩⟩

/-- A step makes it later. -/
theorem nextPool_later {site : Nat → Store.Site} {pool pool' : PoolWorld} {a : PoolAct} (h : nextPool site pool a = some pool') :
    pool.Later pool' := by
  cases a with
  | tick =>
    cases h
    exact ⟨Nat.le_succ _, fun i q hq => ⟨q, hq, rfl, rfl⟩⟩
  | ask params edgeHit totalsHit =>
    cases h
    refine ⟨le_refl _, fun i q hq => ⟨q, ?_, rfl, rfl⟩⟩
    rw [List.getElem?_append_left (List.getElem?_eq_some_iff.mp hq).1]
    exact hq
  | call j =>
    rw [nextPool] at h
    split at h
    · rename_i began params c k hget
      cases h
      refine ⟨le_refl _, fun i q hq => ?_⟩
      by_cases hij : j = i
      · subst hij
        rw [hget] at hq
        cases hq
        exact ⟨_, List.getElem?_set_self (List.getElem?_eq_some_iff.mp hget).1, rfl, rfl⟩
      · exact ⟨q, by rw [List.getElem?_set_ne hij]; exact hq, rfl, rfl⟩
    · cases h
  | settle k =>
    obtain ⟨put, -, rfl⟩ := Option.map_eq_some_iff.mp h
    exact ⟨le_refl _, fun i q hq => ⟨q, hq, rfl, rfl⟩⟩
  | drop key =>
    cases h
    exact ⟨le_refl _, fun i q hq => ⟨q, hq, rfl, rfl⟩⟩
  | share =>
    cases h
    exact ⟨le_refl _, fun i q hq => ⟨q, hq, rfl, rfl⟩⟩
  | expire =>
    cases h
    exact ⟨le_refl _, fun i q hq => ⟨q, hq, rfl, rfl⟩⟩

/-- In every run of the site, and for every course of requests beside it: an answer holds the rows its family had, each once, and
the version the pool had, at one moment between the beginning of the request and now. -/
theorem pool_answer_exact {acts : List PoolAct} {w : PoolWorld}
    (hrun : run (nextPool r.state) .empty acts = some w) {q : PoolRequest}
    (hq : q ∈ w.requests) {data : PoolData} (hdata : q.prog = .ret (.full data)) :
    ∃ m, q.began ≤ m ∧ m ≤ w.now ∧ (r.state m).db.version = data.metadata.version ∧
      Lists (r.state m).db (familyOf q.params) data.ips ∧
      data.metadata.count = some data.ips.length := by
  have hw : PoolServed r w := Transition.invariant (fun _ _ _ h hs => PoolServed.next h hs) hrun poolServed_empty
  obtain ⟨-, hserving⟩ := hw.requests q hq
  rw [hdata] at hserving
  exact hserving.answer

/-! ### Two scanners -/

/-- After the first check, two scanners ask for the IPv4 rows; the second is answered from the edge cache. -/
def askedByTwo : List PoolAct :=
  List.replicate 17 .tick ++ [.ask [("family", "4")] true true] ++ List.replicate 9 (.call 0) ++
    [.settle 0, .ask [("family", "4")] true true, .call 1, .call 1]

/-- A second page gets the first one's answer out of the cache. -/
theorem pool_answer_exact_cached : ∃ m, 17 ≤ m ∧ m ≤ 17 ∧ (firstRun.state m).db.version = 2 ∧
    Lists (firstRun.state m).db (some 4) firstAnswer.ips ∧ some 1 = some firstAnswer.ips.length := by
  have h : ((run (nextPool firstRun.state) .empty askedByTwo).bind fun w =>
      w.requests[1]?.map fun q => (q.prog.answer?, q.params, q.began, w.now)) =
      some (some (.full ⟨⟨2, some 1, "SNI", 1, 1, "1970-01-01 00:00:01"⟩, firstAnswer.ips⟩), [("family", "4")], 17, 17) := by
    decide +kernel
  obtain ⟨w, hrun, hget⟩ := Option.bind_eq_some_iff.mp h
  obtain ⟨q, hq, heq⟩ := Option.map_eq_some_iff.mp hget
  simp only [Prod.mk.injEq] at heq
  obtain ⟨hanswer, hparams, hbegan, hnow⟩ := heq
  have hexact := pool_answer_exact hrun (List.mem_of_getElem? hq) (Prog.answer?_eq_some hanswer)
  rw [hparams, hbegan, hnow] at hexact
  exact hexact

end Gwsdb.Web
