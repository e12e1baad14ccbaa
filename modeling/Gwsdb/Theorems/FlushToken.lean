import Gwsdb.Lemmas.ScannerStep

/-!
# A full buffer wakes the flusher

`runFlusher` waits in a select for its ticker, for a token in `flushReady`, or for a retry timer. Between the case it takes and
the critical section that drains the buffer the workers go on, so here the two are steps of their own; together they are the
flush that `next` makes in one step. `Watched` is the invariant: a buffer that is full while nobody is about to drain it has its
token, or the retry timer is armed.
-/

namespace Gwsdb.Scan

open Transition (run)

/-! ## The select -/

/-- The defaults of `New` for what the steps read. -/
def Config.withDefaults (cfg : Config) : Config :=
  { cfg with
    flushInterval := if cfg.flushInterval ≤ 0 then 10 * second else cfg.flushInterval
    flushSize := if cfg.flushSize ≤ 0 then 100 else cfg.flushSize }

/-- The process, and the caller of a `flush` that has not taken the mutex yet. -/
structure Selecting where
  process : Process
  chosen : Option Caller

def Selecting.start : Selecting := ⟨.start, none⟩

/-- A case of the select is taken, or the final attempt made; the buffer is drained; any other step of the process. -/
inductive Move
  | choose (caller : Caller)
  | drain
  | act (a : Action)

/-- Whether a step of the process can be made: a flush is made of its two parts, and the flusher stops in its select only. -/
def Selecting.allows (s : Selecting) : Action → Bool
  | .flush _ => false
  | .shutdown => s.chosen.isNone
  | .giveUp => s.chosen.isNone
  | _ => true

/-- One move. -/
def nextMove (cfg : Config) (s : Selecting) : Move → Option Selecting
  | .choose caller =>
    match s.chosen, s.process.flusher with
    | none, .waiting =>
      if callable s.process caller then
        some ⟨{ s.process with scanner := called s.process.scanner caller }, some caller⟩
      else none
    | _, _ => none
  | .drain =>
    match s.chosen with
    | none => none
    | some caller =>
      some ⟨{ s.process with
        scanner := Gwsdb.Scan.drain s.process.scanner
        flusher := .drained ⟨s.process.scanner.checks, s.process.scanner.scannedCount, caller⟩ }, none⟩
  | .act a => if s.allows a then (next cfg s.process a).map fun p => ⟨p, s.chosen⟩ else none

/-- `runFlusher` is running and waits in its select. -/
structure Selecting.Waits (s : Selecting) : Prop where
  running : s.process.loop.attempt = 0
  selecting : s.chosen = none
  waiting : s.process.flusher = .waiting

/-- A flush that `next` makes in one step is a case taken and the buffer drained at once. -/
theorem choose_drain {cfg : Config} {p p' : Process} {caller : Caller} (h : next cfg p (.flush caller) = some p') :
    run (nextMove cfg) ⟨p, none⟩ [.choose caller, .drain] = some ⟨p', none⟩ := by
  simp only [next] at h
  split at h
  · rename_i hw
    split at h
    · rename_i hc
      cases h
      simp [run, nextMove, hw, hc]
      cases caller <;> simp [called]
    · cases h
  · cases h

/-- Every run of the process is a run of moves. -/
theorem run_moves {cfg : Config} {as : List Action} {p q : Process} (h : run (next cfg) p as = some q) :
    ∃ ms, run (nextMove cfg) ⟨p, none⟩ ms = some ⟨q, none⟩ := by
  induction as generalizing p with
  | nil =>
    cases h
    exact ⟨[], rfl⟩
  | cons a as ih =>
    obtain ⟨p₁, h₁, h₂⟩ := Transition.run_cons.1 h
    obtain ⟨ms, hms⟩ := ih h₂
    by_cases hflush : ∃ caller, a = .flush caller
    · obtain ⟨caller, rfl⟩ := hflush
      exact ⟨[.choose caller, .drain] ++ ms, Transition.run_append.2 ⟨_, choose_drain h₁, hms⟩⟩
    · have hallows : Selecting.allows ⟨p, none⟩ a = true := by
        cases a with
        | flush caller => exact absurd ⟨caller, rfl⟩ hflush
        | _ => rfl
      have hmove : nextMove cfg ⟨p, none⟩ (.act a) = some ⟨p₁, none⟩ := by
        simp [nextMove, hallows, h₁]
      exact ⟨.act a :: ms, Transition.run_cons.2 ⟨_, hmove, hms⟩⟩

/-! ## The invariant -/

/-- The buffer is full. -/
def Full (cfg : Config) (s : Scanner) : Prop := cfg.flushSize ≤ s.checks.length

/-- While `runFlusher` runs, its wake case is on exactly when no retry is due; and a full buffer that is not about to be drained
has a token, or the flusher waits for its retry. -/
structure Watched (cfg : Config) (s : Selecting) : Prop where
  waiting : s.chosen ≠ none → s.process.flusher = .waiting
  wake : s.process.loop.attempt = 0 → s.process.loop.wake = !s.process.loop.retry
  token : s.process.loop.attempt = 0 → s.chosen = none → Full cfg s.process.scanner →
    s.process.scanner.flushReady = true ∨ s.process.flusher = .waiting ∧ s.process.loop.retry = true

/-- The flush size is positive. -/
theorem withDefaults_flushSize (cfg : Config) : 0 < cfg.withDefaults.flushSize := by
  unfold Config.withDefaults
  simp only
  split <;> omega

/-- At the start the buffer is watched. -/
theorem watched_start (cfg : Config) : Watched cfg.withDefaults .start where
  waiting := fun _ => rfl
  wake := fun _ => rfl
  token := by
    intro _ _ hfull
    exact absurd hfull (Nat.not_le.2 (withDefaults_flushSize cfg))

/-- A result that fills the buffer offers a token. -/
theorem recordResultLocked_token {cfg : Config} {s : Scanner} {R : Prop} (h : Full cfg s → s.flushReady = true ∨ R) (ip : String)
    (result : Result) (persist : Bool) (now : Time) (source : String)
    (hfull : Full cfg (recordResultLocked cfg s ip result persist now source)) :
    (recordResultLocked cfg s ip result persist now source).flushReady = true ∨ R := by
  cases persist with
  | false =>
    rcases h hfull with hready | hr
    · left
      simp [recordResultLocked, hready]
    · exact Or.inr hr
  | true =>
    have hlen : cfg.flushSize ≤ (s.checks ++ [mkCheck cfg ip result now source]).length := hfull
    left
    simp only [recordResultLocked, if_true, Bool.true_and, Bool.or_eq_true, decide_eq_true_eq]
    exact Or.inr hlen

/-- A check that fills the buffer leaves a token. -/
theorem enterLocked_token {cfg : Config} {s : Scanner} {R : Prop}
    (h : Full cfg s → s.flushReady = true ∨ R) (probe : Probe) (now : Time)
    (hfull : Full cfg (enterLocked cfg s probe now)) : (enterLocked cfg s probe now).flushReady = true ∨ R := by
  cases probe with
  | scan ip result => exact recordResultLocked_token h ip result true now "scan" hfull
  | recheck target result => exact recordResultLocked_token h target.ip result _ now "recheck" hfull

/-- After a flush that returned, the wake case is on exactly when no retry is due; one that failed has armed the timer. -/
theorem returned_wake {cfg : Config} {l : Loop} {caller : Caller} {ok : Bool} {pruneIPs : List String}
    (h : l.attempt = 0 → l.wake = !l.retry) (ha : (l.returned cfg caller ok pruneIPs).attempt = 0) :
    l.attempt = 0 ∧ (l.returned cfg caller ok pruneIPs).wake = !(l.returned cfg caller ok pruneIPs).retry ∧
      (ok = false → (l.returned cfg caller ok pruneIPs).retry = true) := by
  cases caller <;> cases ok <;> simp_all [Loop.returned, Loop.scheduleRetry, Loop.resetBackoff]
  · split at ha <;> simp at ha

/-- What leaves buffer, token and loop alone, and the flusher where it waits or works, keeps the invariant. -/
theorem Watched.frame {cfg : Config} {p p' : Process} {chosen : Option Caller}
    (hs : Watched cfg ⟨p, chosen⟩) (hloop : p'.loop = p.loop)
    (hchecks : p'.scanner.checks = p.scanner.checks) (hready : p'.scanner.flushReady = p.scanner.flushReady)
    (hflusher : p'.flusher = p.flusher ∨ p.flusher ≠ .waiting ∧ p'.flusher ≠ .waiting) : Watched cfg ⟨p', chosen⟩ where
  waiting := by
    intro hchosen
    have hw := hs.waiting hchosen
    rcases hflusher with heq | ⟨hne, -⟩
    · exact heq.trans hw
    · exact absurd hw hne
  wake := by
    intro h₀
    simp only [hloop] at h₀ ⊢
    exact hs.wake h₀
  token := by
    intro h₀ hchosen hfull
    have hold : Full cfg p.scanner := by
      unfold Full at hfull ⊢
      rwa [← hchecks]
    simp only [hloop] at h₀
    rcases hs.token h₀ hchosen hold with htoken | ⟨hw, hretry⟩
    · exact Or.inl (hready.trans htoken)
    · rcases hflusher with heq | ⟨hne, -⟩
      · exact Or.inr ⟨heq.trans hw, by simp only [hloop]; exact hretry⟩
      · exact absurd hw hne

/-- A flush that returns to the select keeps the invariant: one that failed has armed the timer, and one that succeeded has left
buffer and token alone since the drain. -/
theorem Watched.returns {cfg : Config} {p p' : Process} {chosen : Option Caller} {caller : Caller}
    {ok : Bool} {pruneIPs : List String}
    (hs : Watched cfg ⟨p, chosen⟩) (hbusy : p.flusher ≠ .waiting) (hw : p'.flusher = .waiting)
    (hloop : p'.loop = p.loop.returned cfg caller ok pruneIPs)
    (hsame : ok = true → p'.scanner.checks = p.scanner.checks ∧ p'.scanner.flushReady = p.scanner.flushReady) :
    Watched cfg ⟨p', chosen⟩ where
  waiting := fun _ => hw
  wake := by
    intro h₀
    simp only [hloop] at h₀ ⊢
    exact (returned_wake hs.wake h₀).2.1
  token := by
    intro h₀ hchosen hfull
    simp only [hloop] at h₀
    obtain ⟨hold, -, hretry⟩ := returned_wake hs.wake h₀
    cases ok with
    | false => exact Or.inr ⟨hw, by simp only [hloop]; exact hretry rfl⟩
    | true =>
      obtain ⟨hchecks, hready⟩ := hsame rfl
      have hfull' : Full cfg p.scanner := by
        unfold Full at hfull ⊢
        rwa [← hchecks]
      rcases hs.token hold hchosen hfull' with htoken | ⟨hwaiting, -⟩
      · exact Or.inl (hready.trans htoken)
      · exact absurd hwaiting hbusy

@[simp] theorem count_flushReady (s : Scanner) (probe : Probe) : (count s probe).flushReady = s.flushReady := by
  cases probe <;> rfl

@[simp] theorem submitted_flushReady (s : Scanner) (rows : List IPCheck) (maintenance pruneOK : Bool) (now : Time) :
    (submitted s rows maintenance pruneOK now).flushReady = s.flushReady := by
  cases maintenance <;> cases pruneOK <;> rfl

/-- A step of the process other than a flush keeps the invariant. -/
theorem watched_act {cfg : Config} {p p' : Process} {chosen : Option Caller} {a : Action} (h : next cfg p a = some p')
    (ha : Selecting.allows ⟨p, chosen⟩ a = true) (hs : Watched cfg ⟨p, chosen⟩) : Watched cfg ⟨p', chosen⟩ := by
  have hbusy : ∀ {pc : FlushPC}, p.flusher = pc → pc ≠ .waiting → p.flusher ≠ .waiting := by
    intro pc hpc hne hw
    exact hne (hpc.symm.trans hw)
  cases next_step h with
  | read => exact hs.frame rfl (count_checks _ _) (count_flushReady _ _) (Or.inl rfl)
  | mixed => exact hs.frame rfl (count_checks _ _) (count_flushReady _ _) (Or.inl rfl)
  | enter hi =>
    refine ⟨hs.waiting, hs.wake, fun h₀ hchosen hfull => ?_⟩
    exact enterLocked_token (hs.token h₀ hchosen) _ _ hfull
  | seed => exact hs.frame rfl rfl rfl (Or.inl rfl)
  | flush => cases ha
  | nothing hb => exact hs.returns (hbusy hb nofun) rfl rfl fun _ => ⟨rfl, rfl⟩
  | decide hb => exact hs.frame rfl rfl rfl (Or.inr ⟨hbusy hb nofun, nofun⟩)
  | refresh hb => exact hs.frame rfl rfl rfl (Or.inr ⟨hbusy hb nofun, nofun⟩)
  | keep hb => exact hs.frame rfl rfl rfl (Or.inr ⟨hbusy hb nofun, nofun⟩)
  | unfetched hb => exact hs.frame rfl rfl rfl (Or.inr ⟨hbusy hb nofun, nofun⟩)
  | refused hb => exact hs.frame rfl rfl rfl (Or.inr ⟨hbusy hb nofun, nofun⟩)
  | submitted hb =>
    exact hs.frame rfl (submitted_checks _ _ _ _ _) (submitted_flushReady _ _ _ _ _) (Or.inr ⟨hbusy hb nofun, nofun⟩)
  | requeue hb => exact hs.returns (hbusy hb nofun) rfl rfl nofun
  | merge hb => exact hs.returns (hbusy hb nofun) rfl rfl fun _ => ⟨rfl, rfl⟩
  | shutdown => exact ⟨hs.waiting, nofun, nofun⟩
  | giveUp => exact ⟨hs.waiting, nofun, nofun⟩

/-- A move keeps the invariant: a case taken leaves the buffer to be drained, and a drained buffer is not full. -/
theorem watched_move {cfg : Config} (hsize : 0 < cfg.flushSize) (s : Selecting) (m : Move) (s' : Selecting)
    (h : nextMove cfg s m = some s') (hs : Watched cfg s) : Watched cfg s' := by
  obtain ⟨p, chosen⟩ := s
  cases m with
  | choose caller =>
    simp only [nextMove] at h
    split at h
    · rename_i hw
      split at h
      · cases h
        exact ⟨fun _ => hw, hs.wake, nofun⟩
      · cases h
    · cases h
  | drain =>
    cases chosen with
    | none => cases h
    | some caller =>
      cases h
      refine ⟨nofun, hs.wake, fun _ _ hfull => ?_⟩
      exact absurd hfull (Nat.not_le.2 hsize)
  | act a =>
    simp only [nextMove] at h
    split at h
    · obtain ⟨p', hp, rfl⟩ := Option.map_eq_some_iff.1 h
      exact watched_act hp ‹_› hs
    · cases h

/-! ## No full buffer is missed -/

/-- Whenever `runFlusher` waits in its select and the buffer holds `FlushSize` checks or more, a token is there and the wake case
is on, or a retry timer is armed. -/
theorem full_buffer_is_watched (cfg : Config) {ms : List Move} {s : Selecting}
    (hr : run (nextMove cfg.withDefaults) .start ms = some s) (hwaits : s.Waits)
    (hfull : cfg.withDefaults.flushSize ≤ s.process.scanner.checks.length) :
    (s.process.scanner.flushReady = true ∧ s.process.loop.wake = true) ∨ s.process.loop.retry = true := by
  have hs : Watched cfg.withDefaults s := Transition.invariant (watched_move (withDefaults_flushSize cfg)) hr (watched_start cfg)
  obtain ⟨hrunning, hselect, -⟩ := hwaits
  cases hretry : s.process.loop.retry with
  | true => exact Or.inr rfl
  | false =>
    left
    rcases hs.token hrunning hselect hfull with htoken | ⟨-, harmed⟩
    · refine ⟨htoken, ?_⟩
      rw [hs.wake hrunning, hretry]
      rfl
    · rw [hretry] at harmed
      cases harmed

/-- A buffer for one check, a check drained between the token and the mutex, and one after it. -/
def oneCheckConfig : Config := ⟨"SNI", 10 * second, 1⟩

def staleTokenRun : List Move :=
  [.act (.read (.scan "8.8.8.8" ⟨true, 12, "", "", false⟩) 5), .act (.enter 0), .choose .wake,
    .act (.read (.scan "8.8.4.4" ⟨true, 12, "", "", false⟩) 6), .act (.enter 0), .drain, .act (.decide 7),
    .act (.fetchKnownGood 7 none 7), .act .requeue]

theorem full_buffer_requeued : ∃ s, run (nextMove oneCheckConfig.withDefaults) .start staleTokenRun = some s ∧
    ((s.process.scanner.flushReady = true ∧ s.process.loop.wake = true) ∨ s.process.loop.retry = true) :=
  ⟨_, rfl, @full_buffer_is_watched oneCheckConfig staleTokenRun _ rfl ⟨rfl, rfl, rfl⟩ (by decide)⟩

end Gwsdb.Scan
