import Gwsdb.Scan.Scanner

/-!
# What one step of the scanner can do

`Step` lists the steps of the process, one constructor for each way a step ends, with what the step requires and the process it
leaves. `next_step` reads a step of `next` as one of them; the invariants are proved from `Step`.
-/

namespace Gwsdb.Scan

/-- The process after a worker's critical section. -/
def Process.entered (cfg : Config) (p : Process) (i : Nat) (probe : Probe) (now : Time) : Process :=
  { p with
    scanner := enterLocked cfg p.scanner probe now
    readings := p.readings.eraseIdx i
    history :=
      { p.history with
        persisted := p.history.persisted ++ (enterLocked cfg p.scanner probe now).checks.drop p.scanner.checks.length
        recorded := p.history.recorded + 1 } }

/-- The process after a flush returned success on its batch. -/
def Process.returned (cfg : Config) (p : Process) (b : Batch) (s : Scanner) : Process :=
  { p with
    scanner := s
    flusher := .waiting
    loop := p.loop.returned cfg b.caller true p.scanner.pruneIPs
    history := { p.history with returned := p.history.returned ++ [b.checks] } }

/-- The request that a flush submits. -/
def requestOf (cfg : Config) (s : Scanner) (b : Batch) (maintenance : Bool) (now : Time) : SubmitPayload :=
  ⟨rowsOf cfg b.checks (s.knownGood.getD []) now, maintenance,
    pruneCandidates s (rowsOf cfg b.checks (s.knownGood.getD []) now) maintenance⟩

inductive Step (cfg : Config) (p : Process) : Action → Process → Prop
  | read {probe : Probe} {now : Time} (hp : probeable p probe) (hm : probe.result.mixed = false) (hn : now ≠ 0) :
      Step cfg p (.read probe now)
        { p with scanner := count p.scanner probe, readings := p.readings ++ [(probe, now)] }
  | mixed {probe : Probe} (hp : probeable p probe) (hm : probe.result.mixed = true) :
      Step cfg p (.mixed probe) { p with scanner := count p.scanner probe }
  | enter {i : Nat} {probe : Probe} {now : Time} (hi : p.readings[i]? = some (probe, now)) :
      Step cfg p (.enter i) (p.entered cfg i probe now)
  | seed {targets : List PoolTarget} (h : p.loop.attempt = 0) :
      Step cfg p (.seed targets)
        { p with
          scanner := seedRecheckStates p.scanner targets
          history := { p.history with seeded := p.history.seeded ++ targets } }
  | flush {caller : Caller} (hw : p.flusher = .waiting) (hc : callable p caller) :
      Step cfg p (.flush caller)
        { p with
          scanner := drain (called p.scanner caller)
          flusher := .drained ⟨p.scanner.checks, p.scanner.scannedCount, caller⟩ }
  | nothing {now : Time} {b : Batch} (hb : p.flusher = .drained b) (he : b.checks = []) :
      Step cfg p (.decide now) (p.returned cfg b p.scanner)
  | decide {now : Time} {b : Batch} (hb : p.flusher = .drained b) :
      Step cfg p (.decide now) { p with flusher := .fetching b (maintenanceOf p.scanner now) }
  | refresh {now fetchedAt : Time} {fresh : List String} {b : Batch} {m : Bool} (hb : p.flusher = .fetching b m) :
      Step cfg p (.fetchKnownGood now (some fresh) fetchedAt)
        { p with
          scanner := { p.scanner with knownGood := some fresh, knownGoodFetchedAt := fetchedAt }
          flusher := .submitting b m }
  | keep {now fetchedAt : Time} {reply : Option (List String)} {b : Batch} {m : Bool} (hb : p.flusher = .fetching b m)
      (hk : p.scanner.knownGood ≠ none) :
      Step cfg p (.fetchKnownGood now reply fetchedAt) { p with flusher := .submitting b m }
  | unfetched {now fetchedAt : Time} {b : Batch} {m : Bool} (hb : p.flusher = .fetching b m) :
      Step cfg p (.fetchKnownGood now none fetchedAt) { p with flusher := .failed b }
  | refused {now doneAt : Time} {b : Batch} {m : Bool} (hb : p.flusher = .submitting b m) :
      Step cfg p (.submit now none doneAt)
        { p with
          flusher := .failed b
          history := { p.history with requests := p.history.requests ++ [(requestOf cfg p.scanner b m now, none)] } }
  | submitted {now doneAt : Time} {pruneOK : Bool} {b : Batch} {m : Bool} (hb : p.flusher = .submitting b m) :
      Step cfg p (.submit now (some pruneOK) doneAt)
        { p with
          scanner := submitted p.scanner (requestOf cfg p.scanner b m now).checks m pruneOK doneAt
          flusher := .merging b (requestOf cfg p.scanner b m now).checks
          history :=
            { p.history with
              requests := p.history.requests ++ [(requestOf cfg p.scanner b m now, some pruneOK)]
              accepted := p.history.accepted ++ (requestOf cfg p.scanner b m now).checks } }
  | requeue {b : Batch} (hb : p.flusher = .failed b) :
      Step cfg p .requeue
        { p with
          scanner := requeue p.scanner b.checks b.scanned
          flusher := .waiting
          loop := p.loop.returned cfg b.caller false p.scanner.pruneIPs }
  | merge {b : Batch} {rows : List IPCheck} (hb : p.flusher = .merging b rows) :
      Step cfg p .merge (p.returned cfg b (accepted p.scanner b.checks rows))
  | shutdown (hw : p.flusher = .waiting) (hr : p.readings = []) :
      Step cfg p .shutdown
        { p with scanner := { p.scanner with lastMaintenanceAt := 0 }, loop := { p.loop with attempt := 1 } }
  | giveUp (hw : p.flusher = .waiting) : Step cfg p .giveUp { p with loop := { p.loop with attempt := 4 } }

/-- Every step of `next` is one of the steps listed. -/
theorem next_step {cfg : Config} {p p' : Process} {a : Action} (h : next cfg p a = some p') : Step cfg p a p' := by
  cases a with
  | read probe now =>
    simp only [next, Option.ite_none_right_eq_some, Option.some.injEq] at h
    obtain ⟨⟨hp, hm, hn⟩, rfl⟩ := h
    exact .read hp hm hn
  | mixed probe =>
    simp only [next, Option.ite_none_right_eq_some, Option.some.injEq] at h
    obtain ⟨⟨hp, hm⟩, rfl⟩ := h
    exact .mixed hp hm
  | enter i =>
    simp only [next] at h
    split at h
    · cases h
    · rename_i probe now hi
      cases h
      exact .enter hi
  | seed targets =>
    simp only [next, Option.ite_none_right_eq_some, Option.some.injEq] at h
    obtain ⟨ha, rfl⟩ := h
    exact .seed ha
  | flush caller =>
    simp only [next] at h
    split at h
    · rename_i hw
      simp only [Option.ite_none_right_eq_some, Option.some.injEq] at h
      obtain ⟨hc, rfl⟩ := h
      exact .flush hw hc
    · cases h
  | decide now =>
    simp only [next] at h
    split at h
    · rename_i b hb
      split at h
      · rename_i hc
        cases h
        exact .nothing hb (List.eq_nil_of_length_eq_zero hc.1)
      · cases h
        exact .decide hb
    · cases h
  | fetchKnownGood now reply fetchedAt =>
    simp only [next] at h
    split at h
    · rename_i b m hb
      by_cases hk : p.scanner.knownGood = none
      · rw [if_pos (Or.inl hk)] at h
        cases reply with
        | some fresh => cases h; exact .refresh hb
        | none =>
          simp only [if_pos hk] at h
          cases h
          exact .unfetched hb
      · split at h
        · cases reply with
          | some fresh => cases h; exact .refresh hb
          | none =>
            simp only at h
            cases h
            exact .keep hb hk
        · cases h
          exact .keep hb hk
    · cases h
  | submit now reply doneAt =>
    simp only [next] at h
    split at h
    · rename_i b m hb
      cases reply with
      | none => cases h; exact .refused hb
      | some pruneOK => cases h; exact .submitted hb
    · cases h
  | requeue =>
    simp only [next] at h
    split at h
    · rename_i b hb
      cases h
      exact .requeue hb
    · cases h
  | merge =>
    simp only [next] at h
    split at h
    · rename_i b rows hb
      cases h
      exact .merge hb
    · cases h
  | shutdown =>
    simp only [next] at h
    split at h
    · rename_i hw
      simp only [Option.ite_none_right_eq_some, Option.some.injEq] at h
      obtain ⟨⟨-, hr⟩, rfl⟩ := h
      exact .shutdown hw hr
    · cases h
  | giveUp =>
    simp only [next] at h
    split at h
    · rename_i hw
      simp only [Option.ite_none_right_eq_some, Option.some.injEq] at h
      obtain ⟨-, rfl⟩ := h
      exact .giveUp hw
    · cases h

/-! ## The critical sections -/

/-- A recorded result is appended when it is persisted, and counted in any case. -/
theorem recordResultLocked_appends (cfg : Config) (s : Scanner) (ip : String) (result : Result) (persist : Bool) (now : Time)
    (source : String) :
    (recordResultLocked cfg s ip result persist now source).checks =
        s.checks ++ (if persist then [mkCheck cfg ip result now source] else []) ∧
      (recordResultLocked cfg s ip result persist now source).scannedCount = s.scannedCount + 1 ∧
      (recordResultLocked cfg s ip result persist now source).inFlightChecks = s.inFlightChecks := by
  refine ⟨?_, rfl, rfl⟩
  unfold recordResultLocked
  cases persist <;> simp

/-- The check a worker's critical section persists, if any. -/
def persistedBy (cfg : Config) (s : Scanner) (probe : Probe) (now : Time) : List IPCheck :=
  match probe with
  | .scan ip result => [mkCheck cfg ip result now "scan"]
  | .recheck target result =>
    if persists (recheckStateOf s target) result.ok now then [mkCheck cfg target.ip result now "recheck"] else []

/-- A worker's critical section appends what it persists, counts one result, and leaves the batch in flight alone. -/
theorem enterLocked_appends (cfg : Config) (s : Scanner) (probe : Probe) (now : Time) :
    (enterLocked cfg s probe now).checks = s.checks ++ persistedBy cfg s probe now ∧
      (enterLocked cfg s probe now).scannedCount = s.scannedCount + 1 ∧
      (enterLocked cfg s probe now).inFlightChecks = s.inFlightChecks := by
  cases probe with
  | scan ip result => exact recordResultLocked_appends cfg s ip result true now "scan"
  | recheck target result => exact recordResultLocked_appends cfg s target.ip result _ now "recheck"

/-- What a worker's critical section adds to the history of persisted checks. -/
theorem entered_persisted (cfg : Config) (p : Process) (i : Nat) (probe : Probe) (now : Time) :
    (p.entered cfg i probe now).history.persisted = p.history.persisted ++ persistedBy cfg p.scanner probe now := by
  unfold Process.entered
  simp only [(enterLocked_appends cfg p.scanner probe now).1, List.drop_left]

section

variable (s : Scanner)

/-- Counting a probe leaves the checks alone. -/
@[simp] theorem count_checks (probe : Probe) : (count s probe).checks = s.checks := by
  cases probe <;> rfl

@[simp] theorem count_scannedCount (probe : Probe) : (count s probe).scannedCount = s.scannedCount := by
  cases probe <;> rfl

@[simp] theorem count_inFlightChecks (probe : Probe) : (count s probe).inFlightChecks = s.inFlightChecks := by
  cases probe <;> rfl

@[simp] theorem count_recheckStates (probe : Probe) : (count s probe).recheckStates = s.recheckStates := by
  cases probe <;> rfl

/-- A call leaves the checks alone. -/
@[simp] theorem called_checks (caller : Caller) : (called s caller).checks = s.checks := by
  cases caller <;> rfl

@[simp] theorem called_recheckStates (caller : Caller) : (called s caller).recheckStates = s.recheckStates := by
  cases caller <;> rfl

variable (rows : List IPCheck) (maintenance pruneOK : Bool) (now : Time)

/-- A submission leaves the checks alone. -/
@[simp] theorem submitted_checks : (submitted s rows maintenance pruneOK now).checks = s.checks := by
  cases maintenance <;> cases pruneOK <;> rfl

@[simp] theorem submitted_scannedCount :
    (submitted s rows maintenance pruneOK now).scannedCount = s.scannedCount := by
  cases maintenance <;> cases pruneOK <;> rfl

@[simp] theorem submitted_inFlightChecks :
    (submitted s rows maintenance pruneOK now).inFlightChecks = s.inFlightChecks := by
  cases maintenance <;> cases pruneOK <;> rfl

@[simp] theorem submitted_recheckStates :
    (submitted s rows maintenance pruneOK now).recheckStates = s.recheckStates := by
  cases maintenance <;> cases pruneOK <;> rfl

end

end Gwsdb.Scan
