import Gwsdb.Lib.Schedule
import Gwsdb.Lemmas.PoolVersions

/-!
# The changes of the pool

`/api/pool/changes` answers from reads that other requests come in between of, or from a cached answer. Every answer with rows
still belongs to one moment of the run (`Answered`): the rows are those stamped after the client's version then, and nothing was
removed since that version. So a client that overwrites its snapshot with the rows holds the pool of the answer's version.
-/

namespace Gwsdb.Web

open Gwsdb.Store
open Interleave (Run Prog Decision)
open Interleave.Prog (After Event)
open DeltaSync (IsChanged overwrite)

/-! ## What the handler has read -/

/-- The program has not come to an answer with rows. -/
def Undecided : Program Response → Prop
  | .ret (.changes _) => False
  | .call (.edgePut _ _ _) _ => False
  | _ => True

/-- The program is at an answer with rows: it gives the answer, or puts it in the edge cache first. -/
def Decided (since : Nat) (data : PoolData) (q : Program Response) : Prop :=
  q = .ret (.changes data) ∨ ∃ k, q = .call (.edgePut since data.metadata.version data) k

/-- A program that still has to do something else first is undecided. -/
theorem undecided_bind {α : Type} {p : Program α} {f : α → Program Response}
    (hp : p.Makes OfOverview) (hf : ∀ a, Undecided (f a)) :
    Undecided (p >>= f) := by
  cases p with
  | ret a => exact hf a
  | fail e => trivial
  | call e k =>
    have he : OfOverview e := hp.1
    cases e <;> first | exact he.elim | trivial

/-- An answer that was computed: the rows were read, and the version read after them was still the one they were read for. -/
theorem after_loadChanges {since version : Nat} {totalsHit : Bool}
    {es : List (Event Store.Call Reply Store.Site)} {q : Program Response}
    (h : After (loadChanges since version totalsHit) es q) :
    Undecided q ∨ ∃ s rows es₁ s' es₂ stats, es = ⟨s, .listKnownIPsChanged since version, rows⟩ ::
      (es₁ ++ ⟨s', .poolVersion, version⟩ :: es₂) ∧
      Decided since (changesBody version rows stats) q := by
  rcases After.of_call h with ⟨-, rfl⟩ | ⟨s, rows, es', rfl, h₁⟩
  · exact Or.inl trivial
  rcases After.bind_cases (p := overview totalsHit) h₁ with ⟨p, hp, rfl⟩ | ⟨stats, es₁, es₃, rfl, -, h₂⟩
  · exact Or.inl (undecided_bind (hp.makes (makes_overview totalsHit)).2 fun _ => trivial)
  rcases After.of_call h₂ with ⟨-, rfl⟩ | ⟨s', now, es₂, rfl, h₃⟩
  · exact Or.inl trivial
  simp only [Prog.bind] at h₃
  split at h₃
  · obtain ⟨-, rfl⟩ := After.of_ret h₃
    exact Or.inl trivial
  · rename_i hnow
    obtain rfl : now = version := not_not.1 hnow
    refine Or.inr ⟨s, rows, es₁, s', es₂, stats, rfl, ?_⟩
    rcases After.of_call h₃ with ⟨-, rfl⟩ | ⟨_, _, _, -, h₄⟩
    · exact Or.inr ⟨_, rfl⟩
    · obtain ⟨-, rfl⟩ := After.of_ret h₄
      exact Or.inl rfl

/-! ## What an answer stands for -/

/-- The answer belongs to a moment of the run before `n`: it carries the version of that moment and the rows stamped after the
client's version then, and no row was removed since the client's version. -/
def Answered (r : Run start serve) (n since : Nat) (data : PoolData) : Prop :=
  ∃ m < n, (r.state m).db.version = data.metadata.version ∧ (r.state m).db.resetVersion ≤ since ∧ since ≤ data.metadata.version ∧
    IsChanged IPRow.ip IPRow.revision (r.state m).db.snapshot since data.ips

theorem Answered.mono {r : Run start serve} {n n' since : Nat} {data : PoolData} (hn : n ≤ n') (h : Answered r n since data) :
    Answered r n' since data := by
  obtain ⟨m, hm, hdata⟩ := h
  exact ⟨m, hm.trans_le hn, hdata⟩

/-- The databases of two moments of a run are those of one store. -/
theorem run_moved (r : Run start serve) {m n : Nat} (h : m ≤ n) : Database.Moved (r.state m).db (r.state n).db :=
  r.related (Q := fun s s' => Database.Moved s.db s'.db) (fun s => Database.Moved.refl s.db) (fun _ _ _ hab hbc => hab.trans hbc)
    (fun _ _ hl => serve_moved (r.makes_label makes_start hl) _) h

theorem version_mono (r : Run start serve) {m n : Nat} (h : m ≤ n) : (r.state m).db.version ≤ (r.state n).db.version :=
  (run_moved r h).advance.version_le

/-- Every answer in the edge cache stands for one moment before. -/
def EdgeAnswered (r : Run start serve) (n : Nat) : Prop :=
  ∀ since v data, (r.state n).edge.get? (since, v) = some data → data.metadata.version = v ∧ Answered r n since data

/-- The answer with no rows, given to a client that has the version of the pool. -/
theorem answered_same {r : Run start serve} {i j n since : Nat} {data : PoolData} (hij : i < j) (hj : j < n)
    (hv : (r.state i).db.version = since) (hreset : (r.state j).db.resetVersion ≤ since) (hdata : data.metadata.version = since)
    (hips : data.ips = []) : Answered r n since data := by
  refine ⟨i, hij.trans hj, hv.trans hdata.symm, ?_, hdata.ge, ?_⟩
  · exact ((run_moved r hij.le).advance.reset_le).trans hreset
  · intro row
    rw [hips]
    constructor
    · intro h
      cases h
    · rintro ⟨hrow, hlt⟩
      have hle := (Database.valid_snapshot (r.state i).db).stamped _ row hrow
      have hver : (r.state i).db.snapshot.version = since := hv
      omega

/-- The answer computed between two reads of one version. -/
theorem answered_loaded {r : Run start serve} {i j k l n since version : Nat}
    {stats : (Nat × Nat) × Option (String × Option String)}
    (hij : i < j) (hjk : j < k) (hkl : k < l) (hl : l < n) (hv : (r.state i).db.version = version)
    (hv' : (r.state l).db.version = version) (hreset : (r.state j).db.resetVersion ≤ since) (hsince : since ≤ version) :
    Answered r n since (changesBody version ((r.state k).db.listKnownIPsChanged since version) stats) := by
  have h₁ := version_mono r hij.le
  have h₂ := version_mono r hjk.le
  have h₃ := version_mono r hkl.le
  have hvk : (r.state k).db.version = version := by omega
  have hsame := (run_moved r hjk.le).reset_same (by omega)
  refine ⟨k, by omega, hvk, by omega, hsince, ?_⟩
  have hrows := Database.isChanged_listKnownIPsChanged (r.state k).db since
  rw [hvk] at hrows
  exact hrows

/-- A request for changes that came to an answer with rows came to one that stands for a moment of the run. -/
theorem decided_answered {r : Run start serve} {n since : Nat} {edgeHit totalsHit : Bool}
    {es : List (Event Store.Call Reply Store.Site)}
    {q : Program Response} (h : After (handleChanges since edgeHit totalsHit) es q) (hes : r.Recorded 0 n es)
    (hedge : ∀ i < n, EdgeAnswered r i) : Undecided q ∨ ∃ data, Answered r n since data ∧ Decided since data q := by
  rcases After.of_call h with ⟨-, rfl⟩ | ⟨_, version, es₁, rfl, h₁⟩
  · exact Or.inl trivial
  obtain ⟨i, -, hi, -, -, hver, hes₁⟩ := hes
  have hver : (r.state i).db.version = version := hver.symm
  simp only [Prog.bind] at h₁
  split at h₁
  · obtain ⟨-, rfl⟩ := After.of_ret h₁
    exact Or.inl trivial
  rename_i hle
  rcases After.of_call h₁ with ⟨-, rfl⟩ | ⟨_, resetVersion, es₂, rfl, h₂⟩
  · exact Or.inl trivial
  obtain ⟨j, hij, hj, -, -, hres, hes₂⟩ := hes₁
  have hres : (r.state j).db.resetVersion = resetVersion := hres.symm
  simp only [Prog.bind] at h₂
  split at h₂
  · obtain ⟨-, rfl⟩ := After.of_ret h₂
    exact Or.inl trivial
  rename_i hreset
  split at h₂
  · rename_i hsame
    obtain ⟨-, rfl⟩ := After.of_ret h₂
    exact Or.inr ⟨_, answered_same hij hj (by omega) (by omega) hsame.symm rfl, Or.inl rfl⟩
  have hload : ∀ {es q} {lo : Nat}, j + 1 ≤ lo → r.Recorded lo n es → After (loadChanges since version totalsHit) es q →
      Undecided q ∨ ∃ data, Answered r n since data ∧ Decided since data q := by
    intro es q lo hlo hes h
    rcases after_loadChanges h with hq | ⟨s, rows, es₁, s', es₂, stats, rfl, hq⟩
    · exact Or.inl hq
    obtain ⟨k, hjk, hk, -, -, hrows, hes⟩ := hes
    obtain ⟨l', hkl', -, hes⟩ := hes.append
    obtain ⟨l, hl'l, hl, -, -, hnow, -⟩ := hes
    have hrows : rows = (r.state k).db.listKnownIPsChanged since version := hrows
    have hnow : (r.state l).db.version = version := hnow.symm
    subst hrows
    exact Or.inr ⟨_, answered_loaded hij (by omega) (by omega) hl hver hnow (by omega) (Nat.not_lt.1 hle), hq⟩
  cases edgeHit with
  | false => exact hload (le_refl _) hes₂ h₂
  | true =>
    rcases After.of_call h₂ with ⟨-, rfl⟩ | ⟨_, cached, es₃, rfl, h₃⟩
    · exact Or.inl trivial
    obtain ⟨k, hjk, hk, -, -, hcached, hes₃⟩ := hes₂
    have hcached : cached = (r.state k).edge.get? (since, version) := hcached
    cases cached with
    | none => exact hload (by omega) hes₃ h₃
    | some data =>
      obtain ⟨-, rfl⟩ := After.of_ret h₃
      exact Or.inr ⟨data, (hedge k hk since version data hcached.symm).2.mono hk.le, Or.inl rfl⟩

/-! ## The edge cache -/

/-- Only an answer put in the edge cache changes it. -/
theorem serve_edge (e : Store.Call) (s : Store.Site) :
    (serve e s).2.edge = s.edge ∨ ∃ since v data, e = .edgePut since v data ∧
        (serve e s).2.edge = s.edge.put (since, v) data := by
  cases e with
  | edgePut since v data => exact Or.inr ⟨since, v, data, rfl, rfl⟩
  | _ => exact Or.inl rfl

/-- A thread about to put an answer in the edge cache is a request for changes. -/
theorem task_of_edgePut {r : Run start serve} {n since v : Nat} {data : PoolData} {t} (ht : t ∈ (r.config n).threads) {k}
    (hk : t.prog = .call (.edgePut since v data) k) : ∃ since edgeHit totalsHit, t.task = .changes since edgeHit totalsHit := by
  by_contra hne
  have hmakes := ((r.thread_spec n t ht).1.makes (makes_writer fun since edgeHit totalsHit h =>
    hne ⟨since, edgeHit, totalsHit, h⟩)).2
  rw [hk] at hmakes
  exact hmakes.1

theorem edgeAnswered_mono {r : Run start serve} {n : Nat} (h : EdgeAnswered r n)
    (heq : (r.state (n + 1)).edge = (r.state n).edge) :
    EdgeAnswered r (n + 1) := by
  intro since v data hget
  rw [heq] at hget
  obtain ⟨hv, ha⟩ := h since v data hget
  exact ⟨hv, ha.mono n.le_succ⟩

/-- The edge cache, empty at first, only ever holds answers that stand for a moment of the run. -/
theorem edgeAnswered (r : Run start serve) (hedge : (r.state 0).edge = Keyed.Table.empty) (n : Nat) :
    ∀ i ≤ n, EdgeAnswered r i := by
  induction n with
  | zero =>
    intro i hi since v data hget
    rw [Nat.le_zero.1 hi, hedge] at hget
    cases hget
  | succ n ih =>
    intro i hi
    rcases Nat.le_succ_iff.1 hi with hi | rfl
    · exact ih i hi
    cases hl : r.label n with
    | none => exact edgeAnswered_mono (ih n (le_refl n)) (by rw [r.state_of_none hl])
    | some e =>
      rcases serve_edge e (r.state n) with heq | ⟨since, v, data, rfl, heq⟩
      · exact edgeAnswered_mono (ih n (le_refl n)) (by rw [r.state_of_some hl, heq])
      · obtain ⟨t, ht, k, hk⟩ := r.thread_of_label hl
        obtain ⟨s, edgeHit, totalsHit, htask⟩ := task_of_edgePut ht hk
        obtain ⟨hafter, hrec⟩ := r.thread_spec n t ht
        rw [htask, hk] at hafter
        have hput : Answered r n since data ∧ data.metadata.version = v := by
          rcases decided_answered hafter hrec fun i hi => ih i hi.le with hq | ⟨data', ha, hq | ⟨k', hq⟩⟩
          · exact hq.elim
          · cases hq
          · cases hq
            exact ⟨ha, rfl⟩
        intro since' v' data' hget
        rw [r.state_of_some hl, heq, Keyed.Table.get?_put] at hget
        split at hget
        · rename_i hkey
          cases hkey
          cases hget
          exact ⟨hput.2, hput.1.mono n.le_succ⟩
        · obtain ⟨hv, ha⟩ := ih n (le_refl n) since' v' data' hget
          exact ⟨hv, ha.mono n.le_succ⟩

/-! ## The main result -/

/-- Moments with one version show the same rows. -/
theorem joined_of_version {r : Run start serve} {i j : Nat} (h : (r.state i).db.version = (r.state j).db.version) :
    (r.state i).db.joined = (r.state j).db.joined := by
  rcases Nat.le_total i j with hij | hij
  · exact (run_moved r hij).advance.same h
  · exact ((run_moved r hij).advance.same h.symm).symm

/-- What an answer stands for is what a client needs: its snapshot overwritten with the rows is the
pool at the answer's version. -/
theorem Answered.applies {r : Run start serve} {n since : Nat} {data : PoolData} (h : Answered r n since data) {i : Nat}
    (hi : (r.state i).db.version = since) {j : Nat} (hj : (r.state j).db.version = data.metadata.version) :
    overwrite IPRow.ip (r.state i).db.joined data.ips = (r.state j).db.joined := by
  obtain ⟨m, -, hv, hreset, hle, hrows⟩ := h
  have hjm : (r.state j).db.joined = (r.state m).db.joined := joined_of_version (hj.trans hv.symm)
  rw [hjm]
  have hadvance : ∀ a : Database, a.version = since → Database.Moved a (r.state m).db →
      overwrite IPRow.ip a.joined data.ips = (r.state m).db.joined := by
    intro a ha hmoved
    refine hmoved.advance.overwrite_changed (Database.valid_snapshot _) ?_ ?_ hrows
    · exact hreset.trans ha.ge
    · exact ha.ge
  rcases Nat.le_total i m with him | him
  · exact hadvance _ hi (run_moved r him)
  · have h₁ := version_mono r him
    have hsame : (r.state i).db.joined = (r.state m).db.joined := joined_of_version (by omega)
    rw [hsame]
    exact hadvance _ (by omega) (Database.Moved.refl _)

/-- In every run, a client that asks for the changes since a version and is answered with rows has been answered exactly: the
answer's version was reached before, and the client's snapshot overwritten with the rows is the pool at that version, whichever
moments of the two versions are compared. -/
theorem delta_exact (r : Run start serve) (hedge : (r.state 0).edge = Keyed.Table.empty)
    {n since : Nat} {edgeHit totalsHit : Bool}
    {data : PoolData} {t} (ht : t ∈ (r.config n).threads) (htask : t.task = .changes since edgeHit totalsHit)
    (hprog : t.prog = .ret (.changes data)) :
    (∃ j < n, (r.state j).db.version = data.metadata.version) ∧
      ∀ i j, (r.state i).db.version = since → (r.state j).db.version = data.metadata.version →
        overwrite IPRow.ip (r.state i).db.joined data.ips = (r.state j).db.joined := by
  obtain ⟨hafter, hrec⟩ := r.thread_spec n t ht
  rw [htask, hprog] at hafter
  have hanswered : Answered r n since data := by
    rcases decided_answered hafter hrec fun i hi => edgeAnswered r hedge n i hi.le with hq | ⟨data', ha, hq | ⟨k, hq⟩⟩
    · exact hq.elim
    · cases hq
      exact ha
    · cases hq
  refine ⟨?_, fun i j hi hj => hanswered.applies hi hj⟩
  obtain ⟨m, hm, hv, -⟩ := hanswered
  exact ⟨m, hm, hv⟩

/-! ### A first check -/

/-- A reachable check of an IP that is new. -/
def firstResult : ResultBody where
  ip := "8.8.8.8"
  ok := some true
  rttMs := some 12
  reason := none
  detail := none
  scanMode := .text "SNI"
  checkedAt := some (some 1000)

/-- The check is saved while a client asks for the changes since version 0, its reads coming in between. -/
def firstRun : Run start serve :=
  Run.scheduled start serve (.prune []) ⟨Database.empty, Keyed.Table.empty, none⟩
    ([.spawn (.result (some firstResult)), .call 0, .call 0, .spawn (.changes 0 true true), .call 0] ++
      (List.replicate 4 (.call 1)) ++ [.call 0, .call 0] ++ List.replicate 6 (.call 1))

def firstAnswer : PoolData where
  metadata := ⟨2, none, "SNI", 1, 1, "1970-01-01 00:00:01"⟩
  ips := [⟨"8.8.8.8", 2, [], "Reachable", "1970-01-01 00:00:01", "1970-01-01 00:00:01", 12⟩]

/-- The client's empty snapshot overwritten with the row of its answer is the pool. -/
theorem delta_exact_first : overwrite IPRow.ip (firstRun.state 0).db.joined firstAnswer.ips = (firstRun.state 17).db.joined := by
  have h : ((firstRun.config 17).threads[1]?.map fun t => (t.task, t.prog.answer?)) =
      some (.changes 0 true true, some (.changes firstAnswer)) := by decide +kernel
  obtain ⟨t, ht, heq⟩ := Option.map_eq_some_iff.1 h
  obtain ⟨htask, hprog⟩ := Prod.mk.inj heq
  have hexact := delta_exact firstRun rfl (List.mem_of_getElem? ht) htask (Prog.answer?_eq_some hprog)
  exact hexact.2 0 17 (by decide +kernel) (by decide +kernel)

end Gwsdb.Web
