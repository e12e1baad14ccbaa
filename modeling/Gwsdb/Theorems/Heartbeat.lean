import Gwsdb.Theorems.Recovery

/-!
# Every suppressed heartbeat has a witness

`recordRecheck` suppresses a success while the last success it remembers is less than `recheckSuccessInterval` old. That one is
never made up: it is zero, a time that the server reported, or the time of a success that this scanner persisted (`Founded`),
whichever of `record`, `recordRecheck`, `seedRecheckStates` and `mergeSubmittedStates` wrote it last and whatever became of the
flushes. A success that was persisted is buffered, in flight, or in a batch that was accepted with a row for its IP (`Merged`).
-/

namespace Gwsdb.Scan

open Transition (run run_cons run_append)

/-! ## The statement -/

/-- The batch of the check was accepted, and among the rows is that of the check or of a success of its IP later in the batch. -/
def Merged (p : Process) (c : IPCheck) : Prop :=
  ∃ b ∈ p.history.returned, ∃ (i j : Nat) (g : IPCheck), b[i]? = some c ∧ b[j]? = some g ∧ i ≤ j ∧ g.ip = c.ip ∧ g.ok = true ∧
    ∃ r ∈ p.history.accepted, Agrees g r

/-- A success of the IP dated less than `recheckSuccessInterval` before `now` was reported by the server, or persisted: it is
buffered, in flight, or merged. -/
def Recorded (p : Process) (ip : String) (now : Time) : Prop :=
  (∃ s ∈ p.history.seeded, s.ip = ip ∧ s.lastSeen ≠ 0 ∧ now < s.lastSeen + recheckSuccessInterval) ∨
    ∃ c ∈ p.history.persisted, c.ip = ip ∧ c.ok = true ∧ now < c.checkedAt + recheckSuccessInterval ∧
      (c ∈ p.scanner.checks ∨ c ∈ p.scanner.inFlightChecks ∨ Merged p c)

/-! ## The invariant -/

/-- The time is zero, or that of a success of the IP that the server reported or this scanner persisted. -/
def Founded (seeded : List PoolTarget) (persisted : List IPCheck) (ip : String) (t : Time) : Prop :=
  t = 0 ∨ (∃ s ∈ seeded, s.ip = ip ∧ s.lastSeen = t) ∨ ∃ c ∈ persisted, c.ip = ip ∧ c.ok = true ∧ c.checkedAt = t

/-- What is founded stays so as targets are seeded and checks persisted. -/
theorem Founded.append {seeded : List PoolTarget} {persisted : List IPCheck} {ip : String} {t : Time}
    (h : Founded seeded persisted ip t) (targets : List PoolTarget) (d : List IPCheck) :
    Founded (seeded ++ targets) (persisted ++ d) ip t := by
  rcases h with h | ⟨s, hm, hip, ht⟩ | ⟨c, hm, hip, hok, ht⟩
  · exact Or.inl h
  · exact Or.inr (Or.inl ⟨s, List.mem_append_left _ hm, hip, ht⟩)
  · exact Or.inr (Or.inr ⟨c, List.mem_append_left _ hm, hip, hok, ht⟩)

/-- The time is founded on what the process has seeded and persisted. -/
abbrev Process.Founded (p : Process) : String → Time → Prop := Scan.Founded p.history.seeded p.history.persisted

/-- What is founded stays so after a worker's critical section. -/
theorem founded_entered {cfg : Config} {p : Process} {i : Nat} {probe : Probe} {now : Time} {ip : String} {t : Time}
    (h : p.Founded ip t) : (p.entered cfg i probe now).Founded ip t := by
  unfold Process.Founded
  rw [entered_persisted]
  have hmore := h.append [] (persistedBy cfg p.scanner probe now)
  rw [List.append_nil] at hmore
  exact hmore

/-- What every state of a run keeps, whatever the order of the readings: the checks are accounted for, the rows accepted with a
batch are of its checks and have the last success of each IP, and every last success remembered is founded. -/
structure Ledger (p : Process) : Prop where
  inFlight : InFlight p
  exact : Outbox.Exact p.outbox
  dated : Dated p.history.persisted
  readings : ∀ r ∈ p.readings, Reads p r
  merging : ∀ b rows, p.flusher = .merging b rows → ∀ ip g, lastSuccess b.checks ip = some g → ∃ r ∈ rows, Agrees g r
  accepting : ∀ b rows, p.flusher = .merging b rows → ∀ r ∈ rows, r ∈ p.history.accepted ∧ ∃ c ∈ b.checks, Agrees c r
  settled : ∀ b ∈ p.history.returned, ∀ ip g, lastSuccess b ip = some g → ∃ r ∈ p.history.accepted, Agrees g r
  founded : EachLastSuccess p.Founded p.scanner.recheckStates

namespace Ledger

/-- The checks of the batch in hand are dated. -/
theorem batch_dated {p : Process} (hp : Ledger p) {b : Batch} (hb : p.flusher.batch = some b) : Dated b.checks :=
  fun c hc => hp.dated c (batch_persisted hp.exact hb c hc)

/-- The pending checks were persisted. -/
theorem pending_persisted {p : Process} (hp : Ledger p) {c : IPCheck} (hc : c ∈ p.scanner.checks ++ p.scanner.inFlightChecks) :
    c ∈ p.history.persisted := by
  have hpersisted : p.history.persisted = p.outbox.settled.flatten ++ p.outbox.outItems ++ p.outbox.buffer := hp.exact
  have hfl : p.scanner.inFlightChecks = p.outbox.outItems := hp.inFlight
  rw [hpersisted]
  rcases List.mem_append.1 hc with hc | hc
  · exact List.mem_append_right _ hc
  · rw [hfl] at hc
    exact List.mem_append_left _ (List.mem_append_right _ hc)

/-- What `recordRecheck` remembers of a target that a worker holds is founded. -/
theorem recheckStateOf_founded {p : Process} (hp : Ledger p) {target : PoolTarget} (hseeded : target ∈ p.history.seeded) :
    p.Founded target.ip (recheckStateOf p.scanner target).lastSuccess := by
  unfold recheckStateOf
  cases hstate : p.scanner.recheckStates target.ip with
  | none => exact Or.inr (Or.inl ⟨target, hseeded, rfl, rfl⟩)
  | some old => exact hp.founded target.ip old hstate

end Ledger

/-- Rows that are being merged were accepted, and agree with checks of the batch. -/
theorem next_accepting {cfg : Config} {p p' : Process} {a : Action} (h : next cfg p a = some p') (hp : Ledger p) :
    ∀ b rows, p'.flusher = .merging b rows → ∀ r ∈ rows, r ∈ p'.history.accepted ∧ ∃ c ∈ b.checks, Agrees c r := by
  cases next_step h with
  | @submitted now doneAt pruneOK b m hb =>
    have hdated := hp.batch_dated (b := b) (by rw [hb]; rfl)
    rintro b' rows ⟨⟩ r hr
    exact ⟨List.mem_append_right _ hr, rowsOf_source hdated hr⟩
  | read => exact hp.accepting
  | mixed => exact hp.accepting
  | enter => exact hp.accepting
  | seed => exact hp.accepting
  | shutdown => exact hp.accepting
  | giveUp => exact hp.accepting
  | _ => nofun

/-- A batch that is returned has its last successes accepted. -/
theorem next_settled {cfg : Config} {p p' : Process} {a : Action} (h : next cfg p a = some p') (hp : Ledger p) :
    ∀ b ∈ p'.history.returned, ∀ ip g, lastSuccess b ip = some g → ∃ r ∈ p'.history.accepted, Agrees g r := by
  cases next_step h with
  | @nothing now b hb hempty =>
    intro b' hb' ip g hg
    rcases List.mem_append.1 hb' with hb' | hb'
    · exact hp.settled b' hb' ip g hg
    · rw [List.mem_singleton.1 hb', hempty] at hg
      cases hg
  | @submitted now doneAt pruneOK b m hb =>
    intro b' hb' ip g hg
    obtain ⟨r, hr, ha⟩ := hp.settled b' hb' ip g hg
    exact ⟨r, List.mem_append_left _ hr, ha⟩
  | @merge b rows hb =>
    intro b' hb' ip g hg
    rcases List.mem_append.1 hb' with hb' | hb'
    · exact hp.settled b' hb' ip g hg
    · rw [List.mem_singleton.1 hb'] at hg
      obtain ⟨r, hr, ha⟩ := hp.merging b rows hb ip g hg
      exact ⟨r, (hp.accepting b rows hb r hr).1, ha⟩
  | _ => exact hp.settled

/-- The state a worker leaves its IP is founded on the state it found, on its target, or on the check it persists. -/
theorem stateAfter_founded {cfg : Config} {p : Process} (hp : Ledger p) {i : Nat} {probe : Probe} {now : Time}
    (hi : p.readings[i]? = some (probe, now)) :
    ∀ st, stateAfter p.scanner probe now = some st → (p.entered cfg i probe now).Founded probe.ip st.lastSuccess := by
  have hnew : ∀ c ∈ persistedBy cfg p.scanner probe now, c ∈ (p.entered cfg i probe now).history.persisted := by
    intro c hc
    rw [entered_persisted]
    exact List.mem_append_right _ hc
  intro st hst
  cases probe with
  | scan ip result =>
    change scanned (p.scanner.recheckStates ip) result.ok now = some st at hst
    unfold scanned at hst
    split at hst
    · rename_i hok
      cases hst
      exact Or.inr (Or.inr ⟨_, hnew _ List.mem_cons_self, rfl, hok, rfl⟩)
    · obtain ⟨old, hstate, rfl⟩ := Option.map_eq_some_iff.1 hst
      exact founded_entered (hp.founded ip old hstate)
  | recheck target result =>
    cases hst
    have hbefore := hp.recheckStateOf_founded ((hp.readings _ (List.mem_of_getElem? hi)).2 target result rfl)
    unfold rechecked
    by_cases hpersist : (result.ok && persists (recheckStateOf p.scanner target) result.ok now) = true
    · obtain ⟨hok, hper⟩ := Bool.and_eq_true_iff.1 hpersist
      rw [if_pos hpersist]
      refine Or.inr (Or.inr ⟨mkCheck cfg target.ip result now "recheck", hnew _ ?_, rfl, hok, rfl⟩)
      simp only [persistedBy, hper, if_true, List.mem_singleton]
    · rw [if_neg hpersist]
      exact founded_entered hbefore

/-- The last success of every recheck state is founded. -/
theorem next_founded {cfg : Config} {p p' : Process} {a : Action} (h : next cfg p a = some p') (hp : Ledger p) :
    EachLastSuccess p'.Founded p'.scanner.recheckStates := by
  cases next_step h with
  | @enter i probe now hi =>
    have hstates : (p.entered cfg i probe now).scanner.recheckStates =
        Function.update p.scanner.recheckStates probe.ip (stateAfter p.scanner probe now) := by
      cases probe <;> rfl
    rw [hstates]
    exact EachLastSuccess.update (fun ip st hst => founded_entered (hp.founded ip st hst)) (stateAfter_founded hp hi)
  | @seed targets =>
    refine EachLastSuccess.seeds (fun ip c hc hok => ?_) targets (fun s hs => ?_) fun ip st hst => ?_
    · obtain ⟨hm, hip⟩ := mem_of_pendingOf hc
      exact Or.inr (Or.inr ⟨c, hp.pending_persisted hm, hip, hok, rfl⟩)
    · exact Or.inr (Or.inl ⟨s, List.mem_append_right _ hs, rfl, rfl⟩)
    · simpa only [List.append_nil] using (hp.founded ip st hst).append targets []
  | @merge b rows hb =>
    refine EachLastSuccess.merges (fun ip => Or.inl rfl) rows (fun r hr hok => ?_) hp.founded
    obtain ⟨-, c, hc, hip, hcok, hat⟩ := hp.accepting b rows hb r hr
    exact Or.inr (Or.inr ⟨c, batch_persisted hp.exact (by rw [hb]; rfl) c hc, hip, hcok.trans hok, hat⟩)
  | read => simpa using hp.founded
  | mixed => simpa using hp.founded
  | flush => simpa [drain] using hp.founded
  | submitted => simpa using hp.founded
  | _ => exact hp.founded

/-- A step keeps the ledger. -/
theorem next_ledger {cfg : Config} {p p' : Process} {a : Action} (h : next cfg p a = some p') (hp : Ledger p) : Ledger p' where
  inFlight := next_inFlight h hp.inFlight
  exact := by
    obtain ⟨op, hop, -⟩ := next_outbox h
    exact hop.exact hp.exact
  dated := next_dated h hp.dated hp.readings
  readings := next_readings h hp.readings
  merging := next_merging h (fun _ hb => hp.batch_dated hb) hp.merging
  accepting := next_accepting h hp
  settled := next_settled h hp
  founded := next_founded h hp

/-- The ledger is in order at the start. -/
theorem start_ledger : Ledger .start where
  inFlight := rfl
  exact := rfl
  dated := nofun
  readings := nofun
  merging := nofun
  accepting := nofun
  settled := nofun
  founded := nofun

/-- A success in a settled batch is merged: the last success of its IP stands no earlier in the batch and has a row. -/
theorem Ledger.merged {p : Process} (hp : Ledger p) {b : List IPCheck} (hb : b ∈ p.history.returned) {c : IPCheck} (hc : c ∈ b)
    (hok : c.ok = true) : Merged p c := by
  obtain ⟨g, hg⟩ := lastSuccess_isSome hc hok
  obtain ⟨-, hgok, hgip⟩ := mem_of_lastSuccess hg
  obtain ⟨as, bs, hsplit, hlast⟩ := lastSuccess_split hg
  have hj : b[as.length]? = some g := by
    rw [hsplit, List.getElem?_append_right (le_refl _), Nat.sub_self]
    rfl
  have hi : ∃ i, b[i]? = some c ∧ i ≤ as.length := by
    rw [hsplit] at hc
    rcases List.mem_append.1 hc with hc | hc
    · obtain ⟨i, hi, heq⟩ := List.mem_iff_getElem.1 hc
      refine ⟨i, ?_, hi.le⟩
      rw [hsplit, List.getElem?_append_left hi, List.getElem?_eq_getElem hi, heq]
    · rcases List.mem_cons.1 hc with rfl | hc
      · exact ⟨as.length, hj, le_refl _⟩
      · have hno := hlast c hc rfl
        rw [hok] at hno
        cases hno
  obtain ⟨i, hi, hle⟩ := hi
  exact ⟨b, hb, i, as.length, g, hi, hj, hle, hgip, hgok, hp.settled b hb c.ip g hg⟩

/-- A success that was persisted is buffered, in flight, or merged. -/
theorem Ledger.located {p : Process} (hp : Ledger p) {c : IPCheck} (hc : c ∈ p.history.persisted) (hok : c.ok = true) :
    c ∈ p.scanner.checks ∨ c ∈ p.scanner.inFlightChecks ∨ Merged p c := by
  have hpersisted : p.history.persisted = p.history.returned.flatten ++ p.outbox.outItems ++ p.scanner.checks := hp.exact
  have hfl : p.scanner.inFlightChecks = p.outbox.outItems := hp.inFlight
  rw [hpersisted, ← hfl] at hc
  rcases List.mem_append.1 hc with hc | hc
  · rcases List.mem_append.1 hc with hc | hc
    · obtain ⟨b, hb, hcb⟩ := List.mem_flatten.1 hc
      exact Or.inr (Or.inr (hp.merged hb hcb hok))
    · exact Or.inr (Or.inl hc)
  · exact Or.inl hc

/-- A founded time that is not zero and recent is that of a recorded success. -/
theorem Ledger.recorded {p : Process} (hp : Ledger p) {ip : String} {t now : Time} (h : p.Founded ip t) (hne : t ≠ 0)
    (hrecent : now < t + recheckSuccessInterval) : Recorded p ip now := by
  rcases h with h | ⟨s, hs, hip, rfl⟩ | ⟨c, hc, hip, hok, rfl⟩
  · exact absurd h hne
  · exact Or.inl ⟨s, hs, hip, hne, hrecent⟩
  · exact Or.inr ⟨c, hc, hip, hok, hrecent, hp.located hc hok⟩

end Gwsdb.Scan
