import Gwsdb.Lemmas.Knowledge
import Gwsdb.Theorems.FlushBuffer

/-!
# When a recovery is not suppressed

`recordRecheck` suppresses a success while the last verdict it remembers is a success. `record` and `recordRecheck` overwrite that
verdict without comparing times, so a worker that read its clock early and entered late can hide a newer failure
(`recovery_suppressed`). In a run in which no result is recorded with a reading older than a check of its IP that was persisted
before, unless both are successes, a suppressed success is never preceded by a newest failure (`recovery_not_suppressed`).
-/

namespace Gwsdb.Scan

open Transition (run run_cons Meets)

/-! ## The statement -/

/-- A check or a sighting of an IP: its verdict and its time. -/
structure Item where
  ok : Bool
  time : Time
  deriving DecidableEq, Repr

/-- What is known of an IP: its rows accepted by the server, its checks in flight and buffered, and the times seeded for it. -/
def items (p : Process) (ip : String) : List Item :=
  ((p.history.accepted ++ (p.scanner.inFlightChecks ++ p.scanner.checks)).filter fun c => decide (c.ip = ip)).map
      (fun c => ⟨c.ok, c.checkedAt⟩) ++
    (p.history.seeded.filter fun s => decide (s.ip = ip)).map fun s => ⟨true, s.lastSeen⟩

/-- The newest item of the IP by time is not a failed check. -/
def NewestNotFailed (p : Process) (ip : String) : Prop :=
  ∃ i ∈ items p ip, (∀ j ∈ items p ip, j.time ≤ i.time) ∧ i.ok = true

/-- The worker at `i` of those that wait for the mutex holds a successful recheck that `recordRecheck` will suppress. -/
def Suppresses (p : Process) (i : Nat) (ip : String) : Prop :=
  ∃ target result now, p.readings[i]? = some (.recheck target result, now) ∧ target.ip = ip ∧ result.ok = true ∧
    persists (recheckStateOf p.scanner target) result.ok now = false

/-- The result recorded by this step, if any, was read no earlier than the checks of its IP persisted before it, unless it and the
check are both successes. -/
def ReadInOrder (p : Process) (a : Action) : Prop :=
  ∀ i probe now, a = .enter i → p.readings[i]? = some (probe, now) →
    ∀ c ∈ p.history.persisted, c.ip = probe.ip → (c.ok = true ∧ probe.result.ok = true) ∨ c.checkedAt ≤ now

/-! ## The invariant -/

/-- The rows whose submission was accepted and that are not merged yet. -/
def FlushPC.rows : FlushPC → List IPCheck
  | .merging _ rows => rows
  | _ => []

/-- What the process knows. -/
def Process.knowledge (p : Process) : Knowledge where
  states := p.scanner.recheckStates
  seeded := p.history.seeded
  accepted := p.history.accepted
  merging := p.flusher.rows
  pending := p.scanner.inFlightChecks ++ p.scanner.checks
  persisted := p.history.persisted

/-- A reading is of a clock, and of a recheck only after its target was seeded. -/
def Reads (p : Process) (r : Probe × Time) : Prop :=
  r.2 ≠ 0 ∧ ∀ target result, r.1 = .recheck target result → target ∈ p.history.seeded

structure Remembers (p : Process) : Prop where
  sound : p.knowledge.Sound
  inFlight : InFlight p
  exact : Outbox.Exact p.outbox
  dated : Dated p.history.persisted
  readings : ∀ r ∈ p.readings, Reads p r
  merging : ∀ b rows, p.flusher = .merging b rows → ∀ ip g, lastSuccess b.checks ip = some g → ∃ r ∈ rows, Agrees g r

/-- A step that moves none of the parts of the knowledge keeps it sound. -/
theorem sound_congr {p q : Process} (hp : p.knowledge.Sound) (h₁ : q.scanner.recheckStates = p.scanner.recheckStates)
    (h₂ : q.history.seeded = p.history.seeded) (h₃ : q.history.accepted = p.history.accepted)
    (h₄ : q.flusher.rows = p.flusher.rows)
    (h₅ : q.scanner.inFlightChecks ++ q.scanner.checks = p.scanner.inFlightChecks ++ p.scanner.checks)
    (h₆ : q.history.persisted = p.history.persisted) : q.knowledge.Sound := by
  unfold Process.knowledge
  rw [h₁, h₂, h₃, h₄, h₅, h₆]
  exact hp

/-- The pending checks of the process, in the order `seedRecheckStates` reads them. -/
theorem isNewest_pendingOf (checks inFlight : List IPCheck) :
    Knowledge.IsNewest (pendingOf (checks ++ inFlight)) (inFlight ++ checks) where
  mem := by
    intro ip p hp
    obtain ⟨hm, hip⟩ := mem_of_pendingOf hp
    exact ⟨List.mem_append.2 (List.mem_append.1 hm).symm, hip⟩
  le := fun c hc => pendingOf_newest (List.mem_append.2 (List.mem_append.1 hc).symm)

/-- The checks of a worker's critical section are read by the clock of the worker. -/
theorem persistedBy_checkedAt {cfg : Config} {s : Scanner} {probe : Probe} {now : Time} {c : IPCheck}
    (hc : c ∈ persistedBy cfg s probe now) : c.checkedAt = now := by
  cases probe with
  | scan ip result => rw [List.mem_singleton.1 hc]; rfl
  | recheck target result =>
    simp only [persistedBy] at hc
    split at hc
    · rw [List.mem_singleton.1 hc]; rfl
    · cases hc

/-- The state of the probed IP after a worker's critical section. -/
def stateAfter (s : Scanner) (probe : Probe) (now : Time) : Option RecheckState :=
  match probe with
  | .scan ip result => scanned (s.recheckStates ip) result.ok now
  | .recheck target result =>
    some (rechecked (recheckStateOf s target) result.ok (persists (recheckStateOf s target) result.ok now) now)

/-- A worker's critical section records in the knowledge the state of its IP and the check it persists. -/
theorem entered_knowledge (cfg : Config) (p : Process) (i : Nat) (probe : Probe) (now : Time) :
    (p.entered cfg i probe now).knowledge =
      p.knowledge.record probe.ip (stateAfter p.scanner probe now) (persistedBy cfg p.scanner probe now) := by
  obtain ⟨happ, -, hfl⟩ := enterLocked_appends cfg p.scanner probe now
  have hst : (enterLocked cfg p.scanner probe now).recheckStates =
      Function.update p.scanner.recheckStates probe.ip (stateAfter p.scanner probe now) := by
    cases probe <;> rfl
  unfold Process.knowledge Knowledge.record
  rw [entered_persisted]
  simp only [Process.entered, happ, hfl, hst, List.append_assoc]

/-- `recordRecheck` suppresses a result only while the last verdict is a success. -/
theorem persists_lastOK {s : Scanner} {target : PoolTarget} {ok : Bool} {now : Time} {st : RecheckState}
    (hst : s.recheckStates target.ip = some st) (h : persists (recheckStateOf s target) ok now = false) : st.lastOK = true := by
  have hof : recheckStateOf s target = st := by
    unfold recheckStateOf
    rw [hst]
    rfl
  rw [hof] at h
  unfold persists at h
  simp only [Bool.or_eq_false_iff, Bool.not_eq_false'] at h
  exact h.1.1.2

/-- A worker's critical section keeps the knowledge sound when its reading is in order. -/
theorem entered_sound {cfg : Config} {p : Process} (hp : Remembers p) {i : Nat} {probe : Probe} {now : Time}
    (hi : p.readings[i]? = some (probe, now))
    (hle : ∀ c ∈ p.history.persisted, c.ip = probe.ip → (c.ok = true ∧ probe.result.ok = true) ∨ c.checkedAt ≤ now) :
    (p.entered cfg i probe now).knowledge.Sound := by
  rw [entered_knowledge]
  cases probe with
  | scan ip result =>
    cases hok : result.ok with
    | true =>
      have hst : stateAfter p.scanner (.scan ip result) now =
          some { lastOK := true, lastSuccess := now, lastResultAt := now } := by simp [stateAfter, scanned, hok]
      rw [hst]
      exact hp.sound.record_success (d := mkCheck cfg ip result now "scan") hok hle
    | false =>
      cases hs : p.scanner.recheckStates ip with
      | none =>
        have hst : stateAfter p.scanner (.scan ip result) now = none := by simp [stateAfter, scanned, hok, hs]
        rw [hst]
        exact hp.sound.record_unknown (d := mkCheck cfg ip result now "scan") hok hs hle
      | some st =>
        have hst : stateAfter p.scanner (.scan ip result) now = some { st with lastOK := false, lastResultAt := now } := by
          simp [stateAfter, scanned, hok, hs]
        rw [hst]
        exact hp.sound.record_failure (d := mkCheck cfg ip result now "scan") hok rfl rfl hle
  | recheck target result =>
    have hseeded : target ∈ p.history.seeded := (hp.readings _ (List.mem_of_getElem? hi)).2 target result rfl
    obtain ⟨st, hst⟩ := Option.ne_none_iff_exists'.1 (hp.sound.tracked target hseeded)
    cases hper : persists (recheckStateOf p.scanner target) result.ok now with
    | true =>
      have hd : persistedBy cfg p.scanner (.recheck target result) now = [mkCheck cfg target.ip result now "recheck"] := by
        simp only [persistedBy, hper, if_true]
      rw [hd]
      cases hok : result.ok with
      | true => exact hp.sound.record_success (d := mkCheck cfg target.ip result now "recheck") hok hle
      | false => exact hp.sound.record_failure (d := mkCheck cfg target.ip result now "recheck") hok hok rfl hle
    | false =>
      have hd : persistedBy cfg p.scanner (.recheck target result) now = [] := by
        simp only [persistedBy, hper, Bool.false_eq_true, if_false]
      rw [hd]
      exact hp.sound.record_suppressed hst (persists_lastOK hst hper)

/-- The batch the flusher holds is in flight. -/
theorem InFlight.batch {p : Process} (h : InFlight p) {b : Batch} (hb : p.flusher.batch = some b) :
    p.scanner.inFlightChecks = b.checks := by
  rw [h]
  simp only [Outbox.State.outItems, Process.outbox, hb, Option.map_some]

/-- Without a batch nothing is in flight. -/
theorem InFlight.no_batch {p : Process} (h : InFlight p) (hb : p.flusher.batch = none) : p.scanner.inFlightChecks = [] := by
  rw [h]
  simp only [Outbox.State.outItems, Process.outbox, hb, Option.map_none]

/-- The checks of the batch the flusher holds were persisted. -/
theorem batch_persisted {p : Process} (he : Outbox.Exact p.outbox) {b : Batch} (hb : p.flusher.batch = some b) :
    ∀ c ∈ b.checks, c ∈ p.history.persisted := by
  intro c hc
  have hout : c ∈ p.outbox.outItems := by
    simp only [Outbox.State.outItems, Process.outbox, hb, Option.map_some]
    exact hc
  have hpersisted : p.history.persisted = p.outbox.settled.flatten ++ p.outbox.outItems ++ p.outbox.buffer := he
  rw [hpersisted]
  exact List.mem_append_left _ (List.mem_append_right _ hout)

/-- The batch in hand is what the scanner has in flight. -/
theorem Remembers.batch {p : Process} (hp : Remembers p) {b : Batch} (hb : p.flusher.batch = some b) :
    p.scanner.inFlightChecks = b.checks ∧ Dated b.checks :=
  ⟨hp.inFlight.batch hb, fun c hc => hp.dated c (batch_persisted hp.exact hb c hc)⟩

/-- Every step keeps the knowledge sound, when the result it records was read in order. -/
theorem next_sound {cfg : Config} {p p' : Process} {a : Action} (h : next cfg p a = some p') (hc : ReadInOrder p a)
    (hp : Remembers p) : p'.knowledge.Sound := by
  cases next_step h with
  | read => exact sound_congr hp.sound (by simp) rfl rfl rfl (by simp) rfl
  | mixed => exact sound_congr hp.sound (by simp) rfl rfl rfl (by simp) rfl
  | @enter i probe now hi => exact entered_sound hp hi (hc i probe now rfl hi)
  | @seed targets => exact hp.sound.seeds (isNewest_pendingOf _ _) targets
  | flush hw =>
    have hfl := hp.inFlight.no_batch (by rw [hw]; rfl)
    exact sound_congr hp.sound (by simp [drain]) rfl rfl (by rw [hw]; rfl) (by simp [drain, hfl]) rfl
  | nothing hb => exact sound_congr hp.sound rfl rfl rfl (by rw [hb]; rfl) rfl rfl
  | decide hb => exact sound_congr hp.sound rfl rfl rfl (by rw [hb]; rfl) rfl rfl
  | refresh hb => exact sound_congr hp.sound rfl rfl rfl (by rw [hb]; rfl) rfl rfl
  | keep hb => exact sound_congr hp.sound rfl rfl rfl (by rw [hb]; rfl) rfl rfl
  | unfetched hb => exact sound_congr hp.sound rfl rfl rfl (by rw [hb]; rfl) rfl rfl
  | refused hb => exact sound_congr hp.sound rfl rfl rfl (by rw [hb]; rfl) rfl rfl
  | @submitted now doneAt pruneOK b m hb =>
    obtain ⟨hfl, hdated⟩ := hp.batch (b := b) (by rw [hb]; rfl)
    have hrows : ∀ r ∈ (requestOf cfg p.scanner b m now).checks, ∃ c ∈ p.knowledge.pending, Agrees c r := by
      intro r hr
      obtain ⟨c, hc, ha⟩ := rowsOf_source hdated hr
      refine ⟨c, ?_, ha⟩
      show c ∈ p.scanner.inFlightChecks ++ p.scanner.checks
      rw [hfl]
      exact List.mem_append_left _ hc
    have hk := hp.sound.accept (by show p.flusher.rows = []; rw [hb]; rfl) hrows
    simpa only [Process.knowledge, submitted_recheckStates, submitted_inFlightChecks, submitted_checks, FlushPC.rows] using hk
  | @requeue b hb =>
    obtain ⟨hfl, -⟩ := hp.batch (b := b) (by rw [hb]; rfl)
    exact sound_congr hp.sound rfl rfl rfl (by rw [hb]; rfl) (by simp [requeue, hfl]) rfl
  | @merge b rows hb =>
    obtain ⟨hfl, -⟩ := hp.batch (b := b) (by rw [hb]; rfl)
    have hrows : p.knowledge.merging = rows := by
      show p.flusher.rows = rows
      rw [hb]
      rfl
    have hlast : ∀ ip g, lastSuccess p.scanner.inFlightChecks ip = some g → ∃ r ∈ p.knowledge.merging, Agrees g r := by
      rw [hfl, hrows]
      exact hp.merging b rows hb
    have hk := hp.sound.merge rfl hlast
    rw [Knowledge.merge, hrows] at hk
    exact hk
  | shutdown hw => exact hp.sound
  | giveUp hw => exact hp.sound

/-- The persisted checks stay dated: a reading is never the zero time. -/
theorem next_dated {cfg : Config} {p p' : Process} {a : Action} (h : next cfg p a = some p') (hd : Dated p.history.persisted)
    (hr : ∀ r ∈ p.readings, Reads p r) : Dated p'.history.persisted := by
  cases next_step h with
  | @enter i probe now hi =>
    rw [entered_persisted]
    intro c hc
    rcases List.mem_append.1 hc with hc | hc
    · exact hd c hc
    · rw [persistedBy_checkedAt hc]
      exact (hr _ (List.mem_of_getElem? hi)).1
  | _ => exact hd

/-- Targets stay seeded. -/
theorem Reads.mono {p p' : Process} (hs : ∀ t ∈ p.history.seeded, t ∈ p'.history.seeded) {r : Probe × Time}
    (hr : Reads p r) : Reads p' r :=
  ⟨hr.1, fun target result h => hs target (hr.2 target result h)⟩

/-- A step keeps the readings true. -/
theorem next_readings {cfg : Config} {p p' : Process} {a : Action} (h : next cfg p a = some p')
    (hr : ∀ r ∈ p.readings, Reads p r) : ∀ r ∈ p'.readings, Reads p' r := by
  cases next_step h with
  | @read probe now hpr hm hn =>
    intro r hmem
    rcases List.mem_append.1 hmem with hmem | hmem
    · exact hr r hmem
    · rw [List.mem_singleton.1 hmem]
      refine ⟨hn, fun target result he => ?_⟩
      subst he
      simp only [probeable, Bool.and_eq_true, decide_eq_true_eq] at hpr
      exact hpr.2
  | enter => exact fun r hmem => hr r (List.mem_of_mem_eraseIdx hmem)
  | seed => exact fun r hmem => (hr r hmem).mono fun t ht => List.mem_append_left _ ht
  | _ => exact hr

/-- While the flusher merges, each IP with a success in the batch has the row of its last one among the rows. -/
theorem next_merging {cfg : Config} {p p' : Process} {a : Action} (h : next cfg p a = some p')
    (hd : ∀ b, p.flusher.batch = some b → Dated b.checks)
    (hm : ∀ b rows, p.flusher = .merging b rows → ∀ ip g, lastSuccess b.checks ip = some g → ∃ r ∈ rows, Agrees g r) :
    ∀ b rows, p'.flusher = .merging b rows → ∀ ip g, lastSuccess b.checks ip = some g → ∃ r ∈ rows, Agrees g r := by
  cases next_step h with
  | @submitted now doneAt pruneOK b m hb =>
    have hdated := hd b (by rw [hb]; rfl)
    rintro b' rows ⟨⟩ ip g hg
    exact rowsOf_lastSuccess cfg _ now hdated hg
  | read => exact hm
  | mixed => exact hm
  | enter => exact hm
  | seed => exact hm
  | shutdown => exact hm
  | giveUp => exact hm
  | _ => nofun

/-- A step that reads the clock in order keeps what is remembered. -/
theorem next_remembers {cfg : Config} {p p' : Process} {a : Action} (h : next cfg p a = some p') (hc : ReadInOrder p a)
    (hp : Remembers p) : Remembers p' where
  sound := next_sound h hc hp
  inFlight := next_inFlight h hp.inFlight
  exact := by
    obtain ⟨op, hop, -⟩ := next_outbox h
    exact hop.exact hp.exact
  dated := next_dated h hp.dated hp.readings
  readings := next_readings h hp.readings
  merging := next_merging h (fun _ hb => (hp.batch hb).2) hp.merging

/-- At the start nothing is to be remembered. -/
theorem start_remembers : Remembers .start where
  sound :=
    { suffix := List.suffix_refl _
      inOrder := List.Pairwise.nil
      acceptedSource := nofun
      mergingSource := nofun
      tracked := nofun
      untracked := nofun
      acceptedKnown := nofun
      pendingKnown := nofun }
  inFlight := rfl
  exact := rfl
  dated := nofun
  readings := nofun
  merging := nofun

/-! ## Suppression -/

/-- Of finitely many items, one is the newest. -/
theorem exists_newest {l : List Item} (h : l ≠ []) : ∃ i ∈ l, ∀ j ∈ l, j.time ≤ i.time := by
  induction l with
  | nil => exact absurd rfl h
  | cons a l ih =>
    by_cases hl : l = []
    · subst hl
      exact ⟨a, by simp, by simp⟩
    · obtain ⟨i, hi, hle⟩ := ih hl
      by_cases hai : a.time ≤ i.time
      · refine ⟨i, List.mem_cons_of_mem _ hi, fun j hj => ?_⟩
        rcases List.mem_cons.1 hj with rfl | hj
        · exact hai
        · exact hle j hj
      · refine ⟨a, List.mem_cons_self, fun j hj => ?_⟩
        rcases List.mem_cons.1 hj with rfl | hj
        · exact le_refl _
        · exact (hle j hj).trans (not_le.1 hai).le

theorem mem_items {p : Process} {ip : String} {i : Item} :
    i ∈ items p ip ↔
      (∃ c, (c ∈ p.history.accepted ∨ c ∈ p.scanner.inFlightChecks ++ p.scanner.checks) ∧ c.ip = ip ∧ ⟨c.ok, c.checkedAt⟩ = i) ∨
        ∃ s ∈ p.history.seeded, s.ip = ip ∧ ⟨true, s.lastSeen⟩ = i := by
  unfold items
  simp only [List.mem_append, List.mem_map, List.mem_filter, decide_eq_true_eq, and_assoc]

/-- A witness against a failure is a successful item that is not older. -/
theorem item_of_witnessed {p : Process} {ip : String} {t : Time} (h : p.knowledge.Witnessed ip t) :
    ∃ i ∈ items p ip, i.ok = true ∧ t ≤ i.time := by
  rcases h with ⟨s, hs, hip, hle⟩ | ⟨r, hr, hip, hok, hle⟩ | ⟨g, hg, hle⟩
  · exact ⟨⟨true, s.lastSeen⟩, mem_items.2 (Or.inr ⟨s, hs, hip, rfl⟩), rfl, hle⟩
  · exact ⟨⟨r.ok, r.checkedAt⟩, mem_items.2 (Or.inl ⟨r, Or.inl hr, hip, rfl⟩), hok, hle⟩
  · obtain ⟨hm, hok, hip⟩ := mem_of_lastSuccess hg
    exact ⟨⟨g.ok, g.checkedAt⟩, mem_items.2 (Or.inl ⟨g, Or.inr hm, hip, rfl⟩), hok, hle⟩

/-- While the last verdict of an IP is a success, each of its failed items has a witness. -/
theorem Remembers.failed_witnessed {p : Process} (hp : Remembers p) {ip : String} {st : RecheckState}
    (hst : p.scanner.recheckStates ip = some st) (hok : st.lastOK = true) {i : Item} (hi : i ∈ items p ip)
    (hfail : i.ok = false) : p.knowledge.Witnessed ip i.time := by
  have hpending : ∀ c ∈ p.knowledge.pending, c.ip = ip → c.ok = false → p.knowledge.Witnessed ip c.checkedAt := by
    intro c hc hip hcok
    rcases hp.sound.pendingKnown c hc hcok with h | h | ⟨st', h₁, h₂, -⟩
    · rw [hip] at h
      change p.scanner.recheckStates ip = none at h
      rw [hst] at h
      cases h
    · rw [hip] at h
      exact h.witnessed hst hok
    · rw [hip] at h₁
      change p.scanner.recheckStates ip = some st' at h₁
      rw [hst] at h₁
      cases h₁
      rw [hok] at h₂
      cases h₂
  rcases mem_items.1 hi with ⟨c, hc, hip, rfl⟩ | ⟨s, -, -, rfl⟩
  · rcases hc with hc | hc
    · rcases hp.sound.acceptedKnown c hc hfail with h | h
      · obtain ⟨-, d, hd, h₁, h₂, h₃⟩ := hp.sound.mergingSource c h
        show p.knowledge.Witnessed ip c.checkedAt
        rw [← h₃]
        exact hpending d hd (h₁.trans hip) (h₂.trans hfail)
      · rw [hip] at h
        exact h.witnessed hst hok
    · exact hpending c hc hip hfail
  · cases hfail

/-- In a run whose results are recorded in order, whenever a successful recheck of a seeded IP is suppressed, the newest of the
IP's checks persisted by the scanner and of the times seeded for it is not a failed check. -/
theorem recovery_not_suppressed (cfg : Config) (as : List Action) (p : Process) (hr : run (next cfg) .start as = some p)
    (hc : Meets (next cfg) ReadInOrder .start as) (i : Nat) (ip : String) (hs : Suppresses p i ip) : NewestNotFailed p ip := by
  have hp : Remembers p := Transition.invariant_of_meets (fun _ _ _ h hc hp => next_remembers h hc hp) hr hc start_remembers
  obtain ⟨target, result, now, hi, rfl, hok, hper⟩ := hs
  have hseeded : target ∈ p.history.seeded := (hp.readings _ (List.mem_of_getElem? hi)).2 target result rfl
  obtain ⟨st, hst⟩ := Option.ne_none_iff_exists'.1 (hp.sound.tracked target hseeded)
  have hlast := persists_lastOK hst hper
  have hne : items p target.ip ≠ [] := List.ne_nil_of_mem (mem_items.2 (Or.inr ⟨target, hseeded, rfl, rfl⟩))
  obtain ⟨n, hn, hmax⟩ := exists_newest hne
  cases hnok : n.ok with
  | true => exact ⟨n, hn, hmax, hnok⟩
  | false =>
    obtain ⟨w, hw, hwok, hle⟩ := item_of_witnessed (hp.failed_witnessed hst hlast hn hnok)
    exact ⟨w, hw, fun j hj => (hmax j hj).trans hle, hwok⟩

/-! ## Two runs -/

def sampleTarget : PoolTarget := { ip := "8.8.8.8", lastSeen := 1 }

/-- A failure and its recovery are persisted in order; the next success is suppressed. -/
def inOrderRun : List Action :=
  [.seed [sampleTarget], .read (.scan "8.8.8.8" unreachable) 3, .enter 0, .read (.recheck sampleTarget reachable) 4, .enter 0,
    .read (.recheck sampleTarget reachable) 5]

/-- A recheck worker reads its clock, a scan worker reads its own and enters first; the recheck worker enters after it. -/
def lateRun : List Action :=
  [.seed [sampleTarget], .read (.recheck sampleTarget reachable) 9, .read (.scan "8.8.8.8" unreachable) 10, .enter 1, .enter 0,
    .read (.recheck sampleTarget reachable) 11]

theorem recovery_not_suppressed_inOrder :
    ∃ p, run (next sampleConfig) .start inOrderRun = some p ∧ Suppresses p 0 "8.8.8.8" ∧ NewestNotFailed p "8.8.8.8" := by
  have hs : ∃ p, run (next sampleConfig) .start inOrderRun = some p ∧ Suppresses p 0 "8.8.8.8" :=
    ⟨_, rfl, sampleTarget, reachable, 5, rfl, rfl, rfl, by decide +kernel⟩
  have hc : Meets (next sampleConfig) ReadInOrder .start inOrderRun := by
    refine .cons rfl nofun (.cons rfl nofun (.cons rfl ?_ (.cons rfl nofun (.cons rfl ?_ (.cons rfl nofun trivial)))))
    · rintro _ _ _ ⟨⟩ ⟨⟩ c hc
      cases hc
    · rintro _ _ _ ⟨⟩ ⟨⟩ c hc _
      right
      rw [List.mem_singleton.1 hc]
      decide
  obtain ⟨p, hp, hs⟩ := hs
  exact ⟨p, hp, hs, recovery_not_suppressed sampleConfig inOrderRun p hp hc 0 "8.8.8.8" hs⟩

/-- The run in which the recheck worker enters late suppresses a recovery: the newest item is the failure of the scan worker. -/
theorem recovery_suppressed :
    ¬∀ cfg as p, run (next cfg) .start as = some p → ∀ i ip, Suppresses p i ip → NewestNotFailed p ip := by
  intro h
  have hs : ∃ p, run (next sampleConfig) .start lateRun = some p ∧ Suppresses p 0 "8.8.8.8" ∧
      items p "8.8.8.8" = [⟨false, 10⟩, ⟨true, 9⟩, ⟨true, 1⟩] :=
    ⟨_, rfl, ⟨sampleTarget, reachable, 11, rfl, rfl, rfl, by decide +kernel⟩, rfl⟩
  obtain ⟨p, hp, hsup, hitems⟩ := hs
  obtain ⟨n, hn, hmax, hok⟩ := h sampleConfig lateRun p hp 0 "8.8.8.8" hsup
  rw [hitems] at hn hmax
  have hle : 10 ≤ n.time := hmax ⟨false, 10⟩ (by simp)
  simp only [List.mem_cons, List.not_mem_nil, or_false] at hn
  rcases hn with rfl | rfl | rfl
  · cases hok
  · exact absurd hle (by decide)
  · exact absurd hle (by decide)

end Gwsdb.Scan
