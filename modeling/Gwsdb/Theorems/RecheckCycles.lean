import Gwsdb.Lemmas.Dates
import Gwsdb.Scan.Feeder
import Gwsdb.Theorems.PoolAnswers
import Gwsdb.Theorems.StoredNames

/-!
# Cycles of rechecks

What the recheck workers are given. Each cycle of a feeder is the reachable rows of its family at one moment of its fetch, oldest
first, each once; workers take the targets of the cycles in order, none twice and none left out, and a fetch begins only when the
cycle before it is consumed and its wait is over (`recheck_cycles`).
-/

namespace Gwsdb.Scan

open Gwsdb.Store
open Gwsdb.Web (OfFamily shown Lists familyOf PoolWorld PoolRequest PoolServed nextPool nextPool_later)
open Interleave (Run)
open IsoTime (isoText isoChars)
open Transition (run)

/-! ## The statement -/

/-- A target carries the time in the column `last_seen`, cut to its second. -/
def SeenAt (lastSeen : Option String) (time : Time) : Prop :=
  match lastSeen with
  | none => time = 0
  | some text => ∀ t, PlainYear t → text = isoText t → time = unix (t / 1000 * 1000 * 1000000)

/-- The targets are the reachable rows of a family whose text is an address of that family, each once, oldest first. -/
structure Exact (cfg : FeederConfig) (db : Database) (ipv6Only : Bool) (targets : List PoolTarget) : Prop where
  sound : ∀ target ∈ targets, ∃ row, db.pool.get? target.ip = some row ∧ row.isIPv6 = ipv6Only ∧ row.lastCheckOk = some true ∧
    SeenAt row.lastSeen target.lastSeen
  parsed : ∀ target ∈ targets, cfg.parseAddr target.ip = some !ipv6Only
  complete : ∀ ip row, db.pool.get? ip = some row → row.isIPv6 = ipv6Only → row.lastCheckOk = some true →
    cfg.parseAddr ip = some !ipv6Only → ∃ target ∈ targets, target.ip = ip
  nodup : (targets.map PoolTarget.ip).Nodup
  oldest : targets.Pairwise fun a b => a.lastSeen ≤ b.lastSeen

/-- The targets that were taken, against those of the cycles: all of them, but for those the feeder has left. -/
def Consumed (f : Feeder) : Prop :=
  match f.stage with
  | .feeding left => left ≠ [] ∧ f.taken ++ left = f.cycles.flatMap Cycle.targets
  | .stopped => f.taken <+: f.cycles.flatMap Cycle.targets
  | _ => f.taken = f.cycles.flatMap Cycle.targets

/-- The least time from one fetch to the next. -/
def FeederConfig.delay (cfg : FeederConfig) : Duration := min (30 * second) cfg.recheckInterval

/-! ## One fetch -/

/-- A target is of the IP of its row. -/
theorem poolTarget_ip {row : IPRow} {target : PoolTarget} (h : poolTarget row = .ok target) : target.ip = row.ip := by
  unfold poolTarget at h
  split at h
  · cases h
    rfl
  · split at h
    · cases h
      rfl
    · cases h

/-- The targets are of the IPs of the rows, in their order. -/
theorem poolTargets_ip {rows : List IPRow} {targets : List PoolTarget}
    (h : List.Forall₂ (fun row target => poolTarget row = .ok target) rows targets) :
    targets.map PoolTarget.ip = rows.map IPRow.ip := by
  induction h with
  | nil => rfl
  | cons ht _ ih => rw [List.map_cons, List.map_cons, ih, poolTarget_ip ht]

/-- Every row is mapped where all are. -/
theorem exists_of_poolTargets {rows : List IPRow} {targets : List PoolTarget}
    (h : List.Forall₂ (fun row target => poolTarget row = .ok target) rows targets) {row : IPRow} (hrow : row ∈ rows) :
    ∃ target ∈ targets, poolTarget row = .ok target := by
  induction h with
  | nil => cases hrow
  | cons ht _ ih =>
    rcases List.mem_cons.mp hrow with rfl | hrow
    · exact ⟨_, List.mem_cons_self, ht⟩
    · obtain ⟨target, hmem, heq⟩ := ih hrow
      exact ⟨target, List.mem_cons_of_mem _ hmem, heq⟩

/-- A fetch takes the reachable rows, each as a target, and sorts them. -/
theorem fetchPool_spec {rows : List IPRow} {targets : List PoolTarget} (h : FetchPool (.ok rows) = .ok targets) :
    (∀ target ∈ targets, ∃ row ∈ rows, row.status = "Reachable" ∧ poolTarget row = .ok target) ∧
      (∀ row ∈ rows, row.status = "Reachable" → ∃ target ∈ targets, poolTarget row = .ok target) ∧
      ((rows.map IPRow.ip).Nodup → (targets.map PoolTarget.ip).Nodup) ∧ targets.Pairwise fun a b => a.lastSeen ≤ b.lastSeen := by
  have hfetch : FetchPool (.ok rows) = (rows.filter (·.status = "Reachable")).mapM poolTarget >>= fun reachable =>
      Except.ok (reachable.insertionSort fun a b => a.lastSeen ≤ b.lastSeen) := rfl
  rw [hfetch] at h
  cases hmap : (rows.filter (·.status = "Reachable")).mapM poolTarget with
  | error e =>
    rw [hmap] at h
    cases h
  | ok reachable =>
    rw [hmap] at h
    cases h
    have hall := Interleave.mapM_ok_iff.mp hmap
    refine ⟨fun target ht => ?_, fun row hrow hstatus => ?_, fun hnodup => ?_, List.pairwise_insertionSort _ _⟩
    · obtain ⟨row, hrow, heq⟩ := Interleave.exists_of_mapM_ok hmap ((List.mem_insertionSort _).mp ht)
      obtain ⟨hmem, hstatus⟩ := List.mem_filter.mp hrow
      exact ⟨row, hmem, of_decide_eq_true hstatus, heq⟩
    · obtain ⟨target, hmem, heq⟩ := exists_of_poolTargets hall (List.mem_filter.mpr ⟨hrow, by simpa using hstatus⟩)
      exact ⟨target, (List.mem_insertionSort _).mpr hmem, heq⟩
    · rw [((List.perm_insertionSort _ reachable).map PoolTarget.ip).nodup_iff, poolTargets_ip hall]
      exact hnodup.sublist (List.filter_sublist.map _)

/-- A row reads reachable when its last check was. -/
theorem statusFor_reachable (row : PoolRow) : statusFor row = "Reachable" ↔ row.lastCheckOk = some true := by
  unfold statusFor
  cases row.lastCheckOk with
  | none => simp
  | some ok => cases ok <;> simp

/-- What the endpoint shows of `last_seen` is read as its second. -/
theorem seenAt_of_poolTarget {db : Database} {ip : String} {row : PoolRow} {target : PoolTarget}
    (h : poolTarget (db.joinRow ip row).toIPRow = .ok target) : SeenAt row.lastSeen target.lastSeen := by
  unfold SeenAt
  have hshown : ((db.joinRow ip row).toIPRow).lastSeen = formatTime (fromSQLiteDateTime row.lastSeen) := rfl
  unfold poolTarget at h
  rw [hshown] at h
  cases hseen : row.lastSeen with
  | none =>
    have hdash : formatTime (fromSQLiteDateTime none) = "-" := rfl
    rw [hseen, if_pos hdash] at h
    exact (congrArg PoolTarget.lastSeen (Except.ok.inj h)).symm
  | some text =>
    rintro t ht rfl
    have hrange : InRange t := by
      unfold InRange
      unfold PlainYear at ht
      omega
    have hdate := fromSQLiteDateTime_isoText hrange
    have hread := parsePoolTime_formatTime ht
    rw [hseen, hdate] at h
    split at h
    · rename_i hdash
      rw [hdash] at hread
      cases hread
    · simp only [hread, Except.ok.injEq] at h
      rw [← h]

/-- A fetch of rows that a moment lists takes the reachable rows of that moment. -/
theorem exact_of_fetch {cfg : FeederConfig} {db : Database} {ipv6Only : Bool} {rows : List IPRow} {pool : List PoolTarget}
    (hlists : Lists db (familyOf (familyParams ipv6Only)) rows) (hfetch : FetchPool (.ok rows) = .ok pool) :
    Exact cfg db ipv6Only (Feeder.matching cfg ipv6Only pool) := by
  have hmatching : Feeder.matching cfg ipv6Only pool = pool.filter fun target => cfg.parseAddr target.ip = some !ipv6Only := by
    cases ipv6Only <;> rfl
  have hfamily : ∀ row, OfFamily (familyOf (familyParams ipv6Only)) row = true ↔ row.isIPv6 = ipv6Only := by
    intro row
    cases ipv6Only with
    | false =>
      have hfour : familyOf (familyParams false) = some 4 := rfl
      simp [OfFamily, hfour]
    | true =>
      have hsix : familyOf (familyParams true) = some 6 := rfl
      simp [OfFamily, hsix]
  obtain ⟨hsound, hcomplete, hnodup, holdest⟩ := fetchPool_spec hfetch
  rw [hmatching]
  constructor
  case sound =>
    intro target htarget
    obtain ⟨row, hrow, hstatus, heq⟩ := hsound target (List.mem_filter.mp htarget).1
    have hshown := (hlists.rows row).mp hrow
    obtain ⟨poolRow, hfilter, hrowEq⟩ := Option.map_eq_some_iff.mp hshown
    obtain ⟨hget, hof⟩ := Option.filter_eq_some_iff.mp hfilter
    rw [poolTarget_ip heq]
    rw [← hrowEq] at hstatus heq
    exact ⟨poolRow, hget, (hfamily poolRow).mp hof, (statusFor_reachable poolRow).mp hstatus, seenAt_of_poolTarget heq⟩
  case parsed => exact fun target htarget => of_decide_eq_true (List.mem_filter.mp htarget).2
  case complete =>
    intro ip row hget hflag hreach hparse
    have hshown : shown db (familyOf (familyParams ipv6Only)) ip = some (db.joinRow ip row).toIPRow := by
      rw [shown, hget, Option.filter_some, if_pos ((hfamily row).mpr hflag)]
      rfl
    have hmem : (db.joinRow ip row).toIPRow ∈ rows := (hlists.rows _).mpr hshown
    obtain ⟨target, htarget, heq⟩ := hcomplete _ hmem ((statusFor_reachable row).mpr hreach)
    have hip : target.ip = ip := poolTarget_ip heq
    exact ⟨target, List.mem_filter.mpr ⟨htarget, decide_eq_true (hip ▸ hparse)⟩, hip⟩
  case nodup => exact (hnodup hlists.nodup).sublist (List.filter_sublist.map _)
  case oldest => exact holdest.sublist List.filter_sublist

/-! ## Steps of a feeder -/

/-- What a step of a feeder at a time does, the endpoint being as it is before the step. -/
inductive Feeder.Move (cfg : FeederConfig) (ipv6Only : Bool) (f : Feeder) (pool : PoolWorld) (clock : Time) : Feeder → Prop
  | asked (hs : f.stage = .fetching none) :
      Move cfg ipv6Only f pool clock { f with stage := .fetching (some pool.requests.length), fetches := clock :: f.fetches }
  | failed (request : Option Nat) (hs : f.stage = .fetching request) :
      Move cfg ipv6Only f pool clock { f with stage := .waiting (clock + 30 * second) }
  | empty (i : Nat) (hs : f.stage = .fetching (some i)) (seeded : List PoolTarget) :
      Move cfg ipv6Only f pool clock { f with seeded := f.seeded ++ seeded, stage := .waiting (clock + 60 * second) }
  | cycle (i : Nat) (hs : f.stage = .fetching (some i)) (q : PoolRequest) (hq : pool.requests[i]? = some q) (data : PoolData)
      (hdata : q.prog = .ret (.full data)) (targets : List PoolTarget) (hfetch : FetchPool (.ok data.ips) = .ok targets)
      (hne : matching cfg ipv6Only targets ≠ []) :
      Move cfg ipv6Only f pool clock
        { f with
          seeded := f.seeded ++ targets
          cycles := f.cycles ++ [⟨q.began, matching cfg ipv6Only targets⟩]
          stage := .feeding (matching cfg ipv6Only targets) }
  | took (target : PoolTarget) (left : List PoolTarget) (hs : f.stage = .feeding (target :: left)) :
      Move cfg ipv6Only f pool clock
        { f with
          taken := f.taken ++ [target]
          stage := if left = [] then .waiting (clock + cfg.recheckInterval) else .feeding left }
  | woke (deadline : Time) (hs : f.stage = .waiting deadline) (hdeadline : deadline ≤ clock) :
      Move cfg ipv6Only f pool clock { f with stage := .fetching none }
  | cancelled : Move cfg ipv6Only f pool clock { f with stage := .stopped }

/-- Every step of a feeder is one of these, and the endpoint stays as it is or gets a request of the feeder. -/
theorem Feeder.next_move {cfg : FeederConfig} {site : Nat → Store.Site} {ipv6Only : Bool} {f f' : Feeder} {pool pool' : PoolWorld}
    {clock : Time} {a : FeederAct} (h : f.next cfg site ipv6Only pool clock a = some (f', pool')) :
    f.Move cfg ipv6Only pool clock f' ∧
      (pool' = pool ∧ (∀ i, f'.stage ≠ .fetching (some i)) ∨
        ∃ edgeHit totalsHit, nextPool site pool (.ask (familyParams ipv6Only) edgeHit totalsHit) = some pool' ∧
        f'.stage = .fetching (some pool.requests.length)) := by
  cases a with
  | fetch edgeHit totalsHit =>
    rw [next] at h
    split at h
    · rename_i hs
      obtain ⟨pool₁, hpool, heq⟩ := Option.map_eq_some_iff.mp h
      cases heq
      exact ⟨.asked hs, .inr ⟨edgeHit, totalsHit, hpool, rfl⟩⟩
    · cases h
  | receive =>
    rw [next] at h
    split at h
    · rename_i i hs
      split at h
      · rename_i began params data hq
        cases h
        unfold fetched
        cases hfetch : FetchPool (.ok data.ips) with
        | error e => exact ⟨.failed _ hs, .inl ⟨rfl, nofun⟩⟩
        | ok targets =>
          simp only
          split
          · exact ⟨.empty i hs targets, .inl ⟨trivial, nofun⟩⟩
          · exact ⟨.cycle i hs _ hq data rfl targets hfetch ‹_›, .inl ⟨trivial, nofun⟩⟩
      · cases h
        exact ⟨.failed _ hs, .inl ⟨rfl, nofun⟩⟩
      · cases h
    · cases h
  | fail err =>
    rw [next] at h
    split at h
    · rename_i request hs
      cases h
      exact ⟨.failed _ hs, .inl ⟨rfl, nofun⟩⟩
    · cases h
  | take =>
    rw [next] at h
    obtain ⟨f₁, htake, heq⟩ := Option.map_eq_some_iff.mp h
    cases heq
    rw [Feeder.take] at htake
    split at htake
    · rename_i target left hs
      cases htake
      refine ⟨.took target left hs, .inl ⟨rfl, fun i hi => ?_⟩⟩
      by_cases hleft : left = []
      · simp only [if_pos hleft] at hi
        cases hi
      · simp only [if_neg hleft] at hi
        cases hi
    · cases htake
  | wake =>
    rw [next] at h
    split at h
    · rename_i deadline hs
      split at h
      · cases h
        exact ⟨.woke deadline hs ‹_›, .inl ⟨rfl, nofun⟩⟩
      · cases h
    · cases h
  | cancel =>
    cases h
    exact ⟨.cancelled, .inl ⟨rfl, nofun⟩⟩

/-- Targets are taken in the order of the cycles. -/
theorem Feeder.Move.consumed {cfg : FeederConfig} {ipv6Only : Bool} {f f' : Feeder} {pool : PoolWorld} {clock : Time}
    (h : f.Move cfg ipv6Only pool clock f') (hf : Consumed f) : Consumed f' := by
  unfold Consumed at hf
  cases h with
  | asked hs =>
    rw [hs] at hf
    exact hf
  | failed request hs =>
    rw [hs] at hf
    exact hf
  | empty i hs seeded =>
    rw [hs] at hf
    exact hf
  | cycle i hs q hq data hdata targets hfetch hne =>
    rw [hs] at hf
    refine ⟨hne, ?_⟩
    rw [List.flatMap_append, hf, List.flatMap_singleton]
  | took target left hs =>
    rw [hs] at hf
    obtain ⟨-, hall⟩ := hf
    unfold Consumed
    by_cases hleft : left = []
    · subst hleft
      simp only [if_true]
      exact hall
    · simp only [if_neg hleft]
      refine ⟨hleft, ?_⟩
      rw [List.append_assoc]
      exact hall
  | woke deadline hs hdeadline =>
    rw [hs] at hf
    exact hf
  | cancelled =>
    show f.taken <+: f.cycles.flatMap Cycle.targets
    split at hf
    · exact ⟨_, hf.2⟩
    · exact hf
    · exact ⟨[], by rw [List.append_nil, hf]⟩

/-- Every target of a cycle is seeded. -/
theorem Feeder.Move.seeded {cfg : FeederConfig} {ipv6Only : Bool} {f f' : Feeder} {pool : PoolWorld} {clock : Time}
    (h : f.Move cfg ipv6Only pool clock f') (hf : ∀ c ∈ f.cycles, ∀ target ∈ c.targets, target ∈ f.seeded) :
    ∀ c ∈ f'.cycles, ∀ target ∈ c.targets, target ∈ f'.seeded := by
  cases h with
  | empty i hs seeded => exact fun c hc target ht => List.mem_append_left _ (hf c hc target ht)
  | cycle i hs q hq data hdata targets hfetch hne =>
    intro c hc target ht
    rcases List.mem_append.mp hc with hc | hc
    · exact List.mem_append_left _ (hf c hc target ht)
    · rw [List.mem_singleton.mp hc] at ht
      refine List.mem_append_right _ ?_
      cases ipv6Only <;> exact (List.mem_filter.mp ht).1
  | _ => exact hf

/-- When the next fetch may begin, at the earliest. -/
def Feeder.notBefore (cfg : FeederConfig) (f : Feeder) (clock : Time) : Prop :=
  (f.fetches.Pairwise fun later earlier => earlier + cfg.delay ≤ later) ∧ ∀ t ∈ f.fetches, t ≤ clock ∧
    match f.stage with
    | .fetching none => t + cfg.delay ≤ clock
    | .waiting deadline => t + cfg.delay ≤ deadline
    | _ => True

/-- A wait that is kept is kept later as well. -/
theorem Feeder.notBefore.mono {cfg : FeederConfig} {f : Feeder} {clock clock' : Time}
    (h : f.notBefore cfg clock) (hc : clock ≤ clock') :
    f.notBefore cfg clock' := by
  refine ⟨h.1, fun t ht => ?_⟩
  obtain ⟨hle, hstage⟩ := h.2 t ht
  refine ⟨hle.trans hc, ?_⟩
  split
  · rename_i hs
    rw [hs] at hstage
    exact hstage.trans hc
  · rename_i hs
    rw [hs] at hstage
    exact hstage
  · trivial

/-- A move of the feeder keeps the wait. -/
theorem Feeder.Move.notBefore {cfg : FeederConfig} {ipv6Only : Bool} {f f' : Feeder} {pool : PoolWorld} {clock : Time}
    (h : f.Move cfg ipv6Only pool clock f') (hf : f.notBefore cfg clock) : f'.notBefore cfg clock := by
  obtain ⟨hpairs, hall⟩ := hf
  have hdelay : cfg.delay ≤ 30 * second ∧ cfg.delay ≤ cfg.recheckInterval := ⟨min_le_left _ _, min_le_right _ _⟩
  cases h with
  | asked hs =>
    refine ⟨List.pairwise_cons.mpr ⟨fun t ht => ?_, hpairs⟩, fun t ht => ⟨?_, trivial⟩⟩
    · have hlate := (hall t ht).2
      rw [hs] at hlate
      exact hlate
    · rcases List.mem_cons.mp ht with rfl | ht
      · exact le_refl _
      · exact (hall t ht).1
  | failed request hs => exact ⟨hpairs, fun t ht => ⟨(hall t ht).1, Nat.add_le_add (hall t ht).1 hdelay.1⟩⟩
  | empty i hs seeded =>
    refine ⟨hpairs, fun t ht => ⟨(hall t ht).1, Nat.add_le_add (hall t ht).1 (hdelay.1.trans ?_)⟩⟩
    exact Nat.mul_le_mul_right _ (by decide)
  | cycle i hs q hq data hdata targets hfetch hne => exact ⟨hpairs, fun t ht => ⟨(hall t ht).1, trivial⟩⟩
  | took target left hs =>
    refine ⟨hpairs, fun t ht => ⟨(hall t ht).1, ?_⟩⟩
    by_cases hleft : left = []
    · simp only [if_pos hleft]
      exact Nat.add_le_add (hall t ht).1 hdelay.2
    · simp only [if_neg hleft]
  | woke deadline hs hdeadline =>
    refine ⟨hpairs, fun t ht => ⟨(hall t ht).1, ?_⟩⟩
    have hlate := (hall t ht).2
    rw [hs] at hlate
    exact hlate.trans hdeadline
  | cancelled => exact ⟨hpairs, fun t ht => ⟨(hall t ht).1, trivial⟩⟩

/-! ## Runs -/

/-- A feeder at a time, beside the endpoint: what it has done is in order, its cycles are exact, and its
request is one of its family. -/
structure FeederExact (r : Run Web.start serve) (cfg : FeederConfig) (pool : PoolWorld) (clock : Time)
    (ipv6Only : Bool) (f : Feeder) :
    Prop where
  consumed : Consumed f
  seeded : ∀ c ∈ f.cycles, ∀ target ∈ c.targets, target ∈ f.seeded
  notBefore : f.notBefore cfg clock
  request : ∀ i, f.stage = .fetching (some i) → ∃ q, pool.requests[i]? = some q ∧ q.params = familyParams ipv6Only
  cycles : ∀ c ∈ f.cycles, ∃ m, c.began ≤ m ∧ m ≤ pool.now ∧ Exact cfg (r.state m).db ipv6Only c.targets

variable {r : Run Web.start serve} {cfg : FeederConfig}

/-- The endpoint and the clock go on. -/
theorem FeederExact.mono {pool pool' : PoolWorld} {clock clock' : Time} {ipv6Only : Bool} {f : Feeder}
    (h : FeederExact r cfg pool clock ipv6Only f) (hclock : clock ≤ clock') (hpool : pool.Later pool') :
    FeederExact r cfg pool' clock' ipv6Only f where
  consumed := h.consumed
  seeded := h.seeded
  notBefore := h.notBefore.mono hclock
  request i hs := by
    obtain ⟨q, hq, hparams⟩ := h.request i hs
    obtain ⟨q', hq', hsame, -⟩ := hpool.requests i q hq
    exact ⟨q', hq', hsame.trans hparams⟩
  cycles c hc := by
    obtain ⟨m, hbegan, hm, hexact⟩ := h.cycles c hc
    exact ⟨m, hbegan, hm.trans hpool.now, hexact⟩

/-- A step of a feeder keeps it exact, where the endpoint is served. -/
theorem FeederExact.next {site : Nat → Store.Site} {pool pool' : PoolWorld} {clock : Time} {ipv6Only : Bool}
    {f f' : Feeder} {a : FeederAct}
    (h : f.next cfg site ipv6Only pool clock a = some (f', pool')) (hserved : PoolServed r pool)
    (hf : FeederExact r cfg pool clock ipv6Only f) : FeederExact r cfg pool' clock ipv6Only f' := by
  obtain ⟨hmove, hpool⟩ := Feeder.next_move h
  have hcycles : ∀ c ∈ f'.cycles, ∃ m, c.began ≤ m ∧ m ≤ pool.now ∧ Exact cfg (r.state m).db ipv6Only c.targets := by
    cases hmove with
    | cycle i hs q hq data hdata targets hfetch hne =>
      intro c hc
      rcases List.mem_append.mp hc with hc | hc
      · exact hf.cycles c hc
      · rw [List.mem_singleton.mp hc]
        obtain ⟨-, hserving⟩ := hserved.requests q (List.mem_of_getElem? hq)
        obtain ⟨q₁, hq₁, hparams⟩ := hf.request i hs
        rw [hq] at hq₁
        cases hq₁
        rw [hdata, hparams] at hserving
        obtain ⟨m, hbegan, hm, -, hlists, -⟩ := hserving.answer
        exact ⟨m, hbegan, hm, exact_of_fetch hlists hfetch⟩
    | _ => exact hf.cycles
  rcases hpool with ⟨rfl, hstage⟩ | ⟨edgeHit, totalsHit, hask, hstage⟩
  · exact ⟨hmove.consumed hf.consumed, hmove.seeded hf.seeded, hmove.notBefore hf.notBefore, fun i hs =>
      absurd hs (hstage i), hcycles⟩
  · cases hask
    refine ⟨hmove.consumed hf.consumed, hmove.seeded hf.seeded, hmove.notBefore hf.notBefore, fun i hs => ?_, hcycles⟩
    rw [hstage] at hs
    cases hs
    exact ⟨⟨pool.now, familyParams ipv6Only, Web.handlePool (familyParams ipv6Only) edgeHit totalsHit⟩, by simp, rfl⟩

/-- The endpoint is served and the feeders are exact. -/
structure RecheckExact (r : Run Web.start serve) (cfg : FeederConfig) (w : RecheckWorld) : Prop where
  served : PoolServed r w.pool
  feeder : ∀ ipv6Only, FeederExact r cfg w.pool w.clock ipv6Only (w.feeder ipv6Only)

/-- Before the first cycle everything is exact. -/
theorem recheckExact_new : RecheckExact r cfg .new where
  served := Web.poolServed_empty
  feeder := fun _ => ⟨rfl, nofun, ⟨List.Pairwise.nil, nofun⟩, nofun, nofun⟩

/-- A step keeps it exact. -/
theorem RecheckExact.next {w w' : RecheckWorld} {a : RecheckAct}
    (h : nextRecheck cfg r.state w a = some w') (hw : RecheckExact r cfg w) :
    RecheckExact r cfg w' := by
  cases a with
  | pool a =>
    obtain ⟨pool, hpool, rfl⟩ := Option.map_eq_some_iff.mp h
    exact ⟨hw.served.next hpool, fun ipv6Only => (hw.feeder ipv6Only).mono (le_refl _) (nextPool_later hpool)⟩
  | wait d =>
    cases h
    exact ⟨hw.served, fun ipv6Only => (hw.feeder ipv6Only).mono (Nat.le_add_right _ _) (PoolWorld.Later.refl _)⟩
  | feeder ipv6Only a =>
    obtain ⟨⟨f, pool⟩, hf, rfl⟩ := Option.map_eq_some_iff.mp h
    have hpool : PoolServed r pool ∧ w.pool.Later pool := by
      rcases (Feeder.next_move hf).2 with ⟨rfl, -⟩ | ⟨edgeHit, totalsHit, hask, -⟩
      · exact ⟨hw.served, PoolWorld.Later.refl _⟩
      · exact ⟨hw.served.next hask, nextPool_later hask⟩
    refine ⟨hpool.1, fun other => ?_⟩
    by_cases hother : other = ipv6Only
    · subst hother
      show FeederExact r cfg pool w.clock other (Function.update w.feeder other f other)
      rw [Function.update_self]
      exact FeederExact.next hf hw.served (hw.feeder other)
    · show FeederExact r cfg pool w.clock other (Function.update w.feeder ipv6Only f other)
      rw [Function.update_of_ne hother]
      exact (hw.feeder other).mono (le_refl _) hpool.2

/-- In every run of the site, and for every course of requests, fetches and workers beside it: each cycle of a feeder is the
reachable rows of its family at one moment since its fetch began, oldest first and each once; the workers took the targets of the
cycles in order, all but those that a feeding feeder has left, so a fetch begins only when all before it are taken; each target
was seeded; and from one fetch to the next it takes at least half a minute or a recheck interval. -/
theorem recheck_cycles {acts : List RecheckAct} {w : RecheckWorld} (hrun : run (nextRecheck cfg r.state) .new acts = some w)
    (ipv6Only : Bool) :
    (∀ c ∈ (w.feeder ipv6Only).cycles, ∃ m, c.began ≤ m ∧ m ≤ w.pool.now ∧ Exact cfg (r.state m).db ipv6Only c.targets) ∧
      Consumed (w.feeder ipv6Only) ∧
      (∀ c ∈ (w.feeder ipv6Only).cycles, ∀ target ∈ c.targets, target ∈ (w.feeder ipv6Only).seeded) ∧
      (w.feeder ipv6Only).fetches.Pairwise fun later earlier => earlier + cfg.delay ≤ later := by
  have hw : RecheckExact r cfg w := Transition.invariant (fun _ _ _ h hs => RecheckExact.next h hs) hrun recheckExact_new
  obtain ⟨hconsumed, hseeded, hnotBefore, -, hcycles⟩ := hw.feeder ipv6Only
  exact ⟨hcycles, hconsumed, hseeded, hnotBefore.1⟩

/-! ### A first cycle -/

/-- The feeder of IPv4 after the first check: it fetches, a worker takes the target, and after the interval it fetches again. -/
def firstCycle : List RecheckAct :=
  List.replicate 17 (.pool .tick) ++ [.feeder false (.fetch true true)] ++ List.replicate 9 (.pool (.call 0)) ++
    [.feeder false .receive, .feeder false .take, .wait (30 * second), .feeder false .wake, .feeder false (.fetch true true)]

def sampleFeeder : FeederConfig := ⟨30 * second, fun ip => if ip = "8.8.8.8" then some true else none⟩

/-- The first cycle takes the pool's one IP. -/
theorem recheck_cycles_first : ∃ w, run (nextRecheck sampleFeeder Web.firstRun.state) .new firstCycle = some w ∧
    ((w.feeder false).taken.map PoolTarget.ip = ["8.8.8.8"]) ∧ Consumed (w.feeder false) := by
  have h : ((run (nextRecheck sampleFeeder Web.firstRun.state) .new firstCycle).map fun w =>
    (w.feeder false).taken.map PoolTarget.ip) =
      some ["8.8.8.8"] := by decide +kernel
  obtain ⟨w, hrun, htaken⟩ := Option.map_eq_some_iff.mp h
  exact ⟨w, hrun, htaken, (recheck_cycles hrun false).2.1⟩

end Gwsdb.Scan
