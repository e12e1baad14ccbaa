import Gwsdb.Lemmas.ScannerStep
import Gwsdb.Lib.Outbox

/-!
# No check is lost, duplicated or reordered

The scanner's buffer is a buffer with one batch out (`Outbox`): a critical section of a worker appends to it, the
start of a flush takes it out, `requeue` puts it back, and a flush that returns success settles it. `next_outbox` says
so of every step of the process.
-/

namespace Gwsdb.Scan

open Transition (run run_cons)

/-- The batch the flusher holds. -/
def FlushPC.batch : FlushPC → Option Batch
  | .waiting => none
  | .drained b => some b
  | .fetching b _ => some b
  | .submitting b _ => some b
  | .failed b => some b
  | .merging b _ => some b

/-- The process as a buffer with one batch out. -/
def Process.outbox (p : Process) : Outbox.State IPCheck where
  buffer := p.scanner.checks
  count := p.scanner.scannedCount
  out := p.flusher.batch.map fun b => (b.checks, b.scanned)
  appended := p.history.persisted
  counted := p.history.recorded
  settled := p.history.returned

/-- A step that takes no batch performs an operation of the buffer other than `take`; a flush that starts takes the buffer, and
`requeue` puts the batch back. -/
theorem next_outbox {cfg : Config} {p p' : Process} {a : Action} (h : next cfg p a = some p') :
    ∃ op, Outbox.Step op p.outbox p'.outbox ∧ (op = .take ↔ ∃ caller, a = .flush caller) ∧ (a = .requeue → op = .restore) := by
  have hout : ∀ {b : Batch}, p.flusher.batch = some b → p.outbox.out = some (b.checks, b.scanned) := by
    intro b hb
    simp only [Process.outbox, hb, Option.map_some]
  have hskip : ∀ q : Process, q.outbox = p.outbox → Outbox.Step .skip p.outbox q.outbox := by
    intro q hq
    rw [hq]
    exact .skip
  cases next_step h with
  | read => exact ⟨.skip, hskip _ (by simp [Process.outbox]), by simp, nofun⟩
  | mixed => exact ⟨.skip, hskip _ (by simp [Process.outbox]), by simp, nofun⟩
  | @enter i probe now hi =>
    refine ⟨.append, ?_, by simp, nofun⟩
    obtain ⟨h₁, h₂, -⟩ := enterLocked_appends cfg p.scanner probe now
    have hs := Outbox.Step.append (o := p.outbox) (persistedBy cfg p.scanner probe now)
    simpa [Process.outbox, Process.entered, h₁, h₂] using hs
  | seed => exact ⟨.skip, .skip, by simp, nofun⟩
  | flush hw hc =>
    refine ⟨.take, ?_, by simp, nofun⟩
    have hs := Outbox.Step.take (o := p.outbox) (by simp [Process.outbox, hw, FlushPC.batch])
    simpa [Process.outbox, drain, FlushPC.batch] using hs
  | @nothing now b hb he =>
    refine ⟨.settle, ?_, by simp, nofun⟩
    exact .settle b.checks b.scanned (hout (by rw [hb]; rfl))
  | decide hb => exact ⟨.skip, hskip _ (by simp [Process.outbox, hb, FlushPC.batch]), by simp, nofun⟩
  | refresh hb => exact ⟨.skip, hskip _ (by simp [Process.outbox, hb, FlushPC.batch]), by simp, nofun⟩
  | keep hb => exact ⟨.skip, hskip _ (by simp [Process.outbox, hb, FlushPC.batch]), by simp, nofun⟩
  | unfetched hb => exact ⟨.skip, hskip _ (by simp [Process.outbox, hb, FlushPC.batch]), by simp, nofun⟩
  | refused hb => exact ⟨.skip, hskip _ (by simp [Process.outbox, hb, FlushPC.batch]), by simp, nofun⟩
  | submitted hb => exact ⟨.skip, hskip _ (by simp [Process.outbox, hb, FlushPC.batch]), by simp, nofun⟩
  | @requeue b hb =>
    refine ⟨.restore, ?_, by simp, fun _ => rfl⟩
    exact .restore b.checks b.scanned (hout (by rw [hb]; rfl))
  | @merge b rows hb =>
    refine ⟨.settle, ?_, by simp, nofun⟩
    exact .settle b.checks b.scanned (hout (by rw [hb]; rfl))
  | shutdown => exact ⟨.skip, hskip _ rfl, by simp, nofun⟩
  | giveUp => exact ⟨.skip, hskip _ rfl, by simp, nofun⟩

/-! ## Whole runs -/

/-- The scanner's in-flight list is the batch that the flusher holds. -/
def InFlight (p : Process) : Prop := p.scanner.inFlightChecks = p.outbox.outItems

theorem next_inFlight {cfg : Config} {p p' : Process} {a : Action} (h : next cfg p a = some p') (hi : InFlight p) :
    InFlight p' := by
  unfold InFlight Outbox.State.outItems Process.outbox at *
  cases next_step h with
  | read => simpa using hi
  | mixed => simpa using hi
  | @enter i probe now _ => simpa [Process.entered, (enterLocked_appends cfg p.scanner probe now).2.2] using hi
  | seed => exact hi
  | flush => simp [drain, FlushPC.batch]
  | nothing hb he => simpa [Process.returned, hb, FlushPC.batch, he] using hi
  | decide hb => simpa [hb, FlushPC.batch] using hi
  | refresh hb => simpa [hb, FlushPC.batch] using hi
  | keep hb => simpa [hb, FlushPC.batch] using hi
  | unfetched hb => simpa [hb, FlushPC.batch] using hi
  | refused hb => simpa [hb, FlushPC.batch] using hi
  | submitted hb => simpa [hb, FlushPC.batch] using hi
  | requeue => rfl
  | merge => rfl
  | shutdown => exact hi
  | giveUp => exact hi

theorem run_inFlight {cfg : Config} {p : Process} {as : List Action} (hr : run (next cfg) .start as = some p) : InFlight p :=
  Transition.invariant (fun _ _ _ h hi => next_inFlight h hi) hr rfl

theorem run_exact {cfg : Config} {p : Process} {as : List Action} (hr : run (next cfg) .start as = some p) :
    Outbox.Exact p.outbox := by
  have hstep : ∀ p a p', next cfg p a = some p' → Outbox.Exact p.outbox → Outbox.Exact p'.outbox := by
    intro p a p' h he
    obtain ⟨op, hop, -⟩ := next_outbox h
    exact hop.exact he
  have hstart : Outbox.Exact Process.start.outbox := rfl
  exact Transition.invariant hstep hr hstart

/-- While no further flush starts, the process keeps to what was appended since the last one. -/
theorem run_since {cfg : Config} {o : Outbox.State IPCheck} {p q : Process} {as : List Action}
    (hr : run (next cfg) p as = some q) (has : ∀ caller, Action.flush caller ∉ as) (hs : Outbox.Since o p.outbox) :
    Outbox.Since o q.outbox := by
  induction as generalizing p with
  | nil =>
    cases hr
    exact hs
  | cons a as ih =>
    obtain ⟨p₁, h₁, h₂⟩ := run_cons.1 hr
    obtain ⟨op, hop, htake, -⟩ := next_outbox h₁
    have hne : op ≠ .take := fun ht => by
      obtain ⟨caller, rfl⟩ := htake.1 ht
      exact has caller (by simp)
    exact ih h₂ (fun caller hm => has caller (by simp [hm])) (hop.since hne hs)

/-- Only the critical section of a worker persists a check, and it persists what the verdict and the recheck state say. -/
theorem next_persisted {cfg : Config} {p p' : Process} {a : Action} (h : next cfg p a = some p') :
    (∃ i probe now, a = .enter i ∧ p.readings[i]? = some (probe, now) ∧
        p'.history.persisted = p.history.persisted ++ persistedBy cfg p.scanner probe now) ∨
      (∀ i, a ≠ .enter i) ∧ p'.history.persisted = p.history.persisted := by
  cases next_step h with
  | @enter i probe now hi => exact Or.inl ⟨i, probe, now, rfl, hi, entered_persisted cfg p i probe now⟩
  | _ => exact Or.inr ⟨nofun, rfl⟩

/-- At every moment the persisted checks are, in order, those of the flushes that returned success, the batch in flight, and the
buffer; a flush that fails leaves the buffer and the probe count as they were, with what came in meanwhile after them; and a check
is persisted by the critical section of a worker only, which persists what `persistedBy` says of its verdict. -/
theorem checks_exactly_once (cfg : Config) :
    (∀ as p, run (next cfg) .start as = some p →
      p.history.persisted = p.history.returned.flatten ++ p.scanner.inFlightChecks ++ p.scanner.checks) ∧
    (∀ as p caller p₁ bs p₂ p₃, run (next cfg) .start as = some p → next cfg p (.flush caller) = some p₁ →
      run (next cfg) p₁ bs = some p₂ → (∀ caller', Action.flush caller' ∉ bs) → next cfg p₂ .requeue = some p₃ →
      ∃ d, p₃.history.persisted = p.history.persisted ++ d ∧ p₃.scanner.checks = p.scanner.checks ++ d ∧
        p₃.scanner.scannedCount = p.scanner.scannedCount + (p₃.history.recorded - p.history.recorded)) ∧
    (∀ p a p', next cfg p a = some p' →
      (∃ i probe now, a = .enter i ∧ p.readings[i]? = some (probe, now) ∧
        p'.history.persisted = p.history.persisted ++ persistedBy cfg p.scanner probe now) ∨
      (∀ i, a ≠ .enter i) ∧ p'.history.persisted = p.history.persisted) := by
  refine ⟨?_, ?_, fun _ _ _ h => next_persisted h⟩
  · intro as p hr
    have he := run_exact hr
    rw [run_inFlight hr]
    exact he
  · intro as p caller p₁ bs p₂ p₃ _ hf hb hbs hq
    obtain ⟨op, hop, htake, -⟩ := next_outbox hf
    rw [htake.2 ⟨caller, rfl⟩] at hop
    have hs : Outbox.Since p.outbox p₂.outbox := run_since hb hbs hop.since_take
    obtain ⟨op', hop', -, hre⟩ := next_outbox hq
    rw [hre rfl] at hop'
    obtain ⟨d, h₁, h₂, h₃, h₄⟩ := hop'.restored hs
    refine ⟨d, h₁, h₂, ?_⟩
    unfold Process.outbox at h₃ h₄
    simp only at h₃ h₄
    omega

/-- A reachable and an unreachable verdict. -/
def reachable : Result := { ok := true, rttMs := 40, reason := "", detail := "", mixed := false }
def unreachable : Result := { ok := false, rttMs := 0, reason := "ping", detail := "", mixed := false }

def sampleConfig : Config := { scanMode := "SNI", flushInterval := 10 * second, flushSize := 100 }

/-- An outage: one check is drained, another comes in, and the known-good set cannot be fetched. -/
theorem checks_exactly_once_outage :
    ∃ p p₁ p₂ p₃, run (next sampleConfig) .start [.read (.scan "8.8.8.8" reachable) 1, .enter 0] = some p ∧
      next sampleConfig p (.flush .ticker) = some p₁ ∧
      run (next sampleConfig) p₁
        [.read (.scan "8.8.4.4" unreachable) 2, .enter 0, .decide 3, .fetchKnownGood 4 none 4] = some p₂ ∧
      next sampleConfig p₂ .requeue = some p₃ ∧ p₃.scanner.scannedCount = 2 ∧
      p₃.history.persisted = p₃.history.returned.flatten ++ p₃.scanner.inFlightChecks ++ p₃.scanner.checks := by
  refine ⟨_, _, _, _, rfl, rfl, rfl, rfl, ?_, ?_⟩
  · obtain ⟨d, -, -, hcount⟩ := (checks_exactly_once sampleConfig).2.1
      [.read (.scan "8.8.8.8" reachable) 1, .enter 0] _ .ticker _
      [.read (.scan "8.8.4.4" unreachable) 2, .enter 0, .decide 3, .fetchKnownGood 4 none 4] _ _ rfl rfl rfl (by simp) rfl
    exact hcount
  · exact (checks_exactly_once sampleConfig).1
      [.read (.scan "8.8.8.8" reachable) 1, .enter 0, .flush .ticker, .read (.scan "8.8.4.4" unreachable) 2, .enter 0,
        .decide 3, .fetchKnownGood 4 none 4, .requeue] _ rfl

end Gwsdb.Scan
