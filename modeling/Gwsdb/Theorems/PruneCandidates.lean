import Gwsdb.Lemmas.ScannerStep
import Mathlib.Tactic

/-!
# Prune candidates

The flusher keeps the IPs of the batches it has submitted until a maintenance request that carried them has completed. In
every run these are the IPs of the batches accepted since (`Pending`), and each completed maintenance request carried all of
them and those of its own batch.
-/

namespace Gwsdb.Scan

open Transition (run)

/-- A request and the reply that `Submit` made of the server's answer. -/
abbrev Request := SubmitPayload × Option Bool

/-- A maintenance request that was accepted with a pruning that worked. -/
def Request.Completes (r : Request) : Prop := r.1.maintenance = true ∧ r.2 = some true

/-- The batch of a request holds an IP. -/
def Request.Holds (r : Request) (ip : String) : Prop := ∃ c ∈ r.1.checks, c.ip = ip

/-- An IP of a batch that was accepted since the last maintenance request that completed. -/
def Pending (requests : List Request) (ip : String) : Prop :=
  ∃ before r after, requests = before ++ r :: after ∧ r.2 ≠ none ∧ r.Holds ip ∧ ∀ q ∈ r :: after, ¬q.Completes

/-- Every reply of a request is one that `Submit` gives, and the pruning worked unless the body is
unreadable or says that it did not. -/
theorem submit_iff (response : Response) :
    (Submit response = none ↔ response = .failed) ∧
      (Submit response = some true ↔ response = .body none ∨ response = .body (some true)) := by
  cases response with
  | failed => simp [Submit]
  | unreadable => simp [Submit]
  | body pruneOk => rcases pruneOk with _ | _ | _ <;> simp [Submit]

/-- What one more request does to the IPs pending: one that completes clears them, one that is accepted adds its batch's, and
one that fails leaves them. -/
theorem pending_concat (requests : List Request) (r : Request) (ip : String) :
    Pending (requests ++ [r]) ip ↔ ¬r.Completes ∧ (Pending requests ip ∨ r.2 ≠ none ∧ r.Holds ip) := by
  constructor
  · rintro ⟨before, q, after, heq, hq, hip, hnot⟩
    rcases List.eq_nil_or_concat after with rfl | ⟨after, z, rfl⟩
    · obtain ⟨rfl, hr⟩ := List.append_inj' heq rfl
      cases hr
      exact ⟨hnot r (by simp), Or.inr ⟨hq, hip⟩⟩
    · rw [List.concat_eq_append] at heq hnot
      rw [← List.cons_append, ← List.append_assoc] at heq
      obtain ⟨hinit, hr⟩ := List.append_inj' heq rfl
      cases hr
      exact ⟨hnot r (by simp), Or.inl ⟨before, q, after, hinit, hq, hip, fun q' hq' => hnot q' (by
        rw [← List.cons_append]
        exact List.mem_append_left _ hq')⟩⟩
  · rintro ⟨hr, ⟨before, q, after, rfl, hq, hip, hnot⟩ | ⟨hok, hip⟩⟩
    · refine ⟨before, q, after ++ [r], by simp, hq, hip, fun q' hq' => ?_⟩
      rw [← List.cons_append] at hq'
      rcases List.mem_append.1 hq' with hm | hm
      · exact hnot q' hm
      · rw [List.mem_singleton.1 hm]
        exact hr
    · exact ⟨requests, r, [], rfl, hok, hip, fun q hq => by rw [List.mem_singleton.1 hq]; exact hr⟩

/-- The IPs of a batch entered in a set. -/
theorem mem_foldl_insert {rows : List IPCheck} {all : List String} {ip : String} :
    ip ∈ (rows.map IPCheck.ip).foldl (fun all ip => all.insert ip) all ↔ ip ∈ all ∨ ∃ c ∈ rows, c.ip = ip := by
  induction rows generalizing all with
  | nil => simp
  | cons c rows ih =>
    rw [List.map_cons, List.foldl_cons, ih, List.mem_insert_iff]
    simp only [List.mem_cons, exists_eq_or_imp]
    tauto

/-! ## One step -/

/-- The flusher's candidates are the IPs pending, and each completed maintenance request carried those
pending before it and its own. -/
structure Accounted (p : Process) : Prop where
  candidates : ∀ ip, ip ∈ p.scanner.pruneIPs ↔ Pending p.history.requests ip
  carried : ∀ before r after, p.history.requests = before ++ r :: after → r.Completes →
    ∀ ip, ip ∈ r.1.pruneIPs ↔ Pending before ip ∨ r.Holds ip

/-- The steps that submit nothing leave the candidates and the requests as they are. -/
theorem Accounted.frame {p p' : Process} (h : Accounted p) (hips : p'.scanner.pruneIPs = p.scanner.pruneIPs)
    (hrequests : p'.history.requests = p.history.requests) : Accounted p' := by
  constructor
  · rw [hips, hrequests]
    exact h.candidates
  · rw [hrequests]
    exact h.carried

/-- One more request keeps the account where the candidates after it are those pending, and a request that completes carried the
candidates before it and its own batch's. -/
theorem Accounted.request {p p' : Process} (h : Accounted p) {r : Request}
    (hrequests : p'.history.requests = p.history.requests ++ [r])
    (hcarried : r.Completes → ∀ ip, ip ∈ r.1.pruneIPs ↔ ip ∈ p.scanner.pruneIPs ∨ r.Holds ip)
    (hips : ∀ ip, ip ∈ p'.scanner.pruneIPs ↔ ¬r.Completes ∧
        (ip ∈ p.scanner.pruneIPs ∨ r.2 ≠ none ∧ r.Holds ip)) : Accounted p' := by
  constructor
  · intro ip
    rw [hips, hrequests, pending_concat, h.candidates]
  · intro before q after heq hq ip
    rw [hrequests] at heq
    rcases List.eq_nil_or_concat after with rfl | ⟨after, z, rfl⟩
    · obtain ⟨rfl, hr⟩ := List.append_inj' heq rfl
      cases hr
      rw [hcarried hq, h.candidates]
    · rw [List.concat_eq_append, ← List.cons_append, ← List.append_assoc] at heq
      exact h.carried before q after (List.append_inj' heq rfl).1 hq ip

/-- The candidates are those waiting and those of the rows. -/
theorem mem_pruneCandidates {s : Scanner} {rows : List IPCheck} {ip : String} :
    ip ∈ pruneCandidates s rows true ↔ ip ∈ s.pruneIPs ∨ ∃ c ∈ rows, c.ip = ip := by
  rw [pruneCandidates, if_pos rfl, List.mem_insertionSort, mem_foldl_insert]

theorem count_pruneIPs (s : Scanner) (probe : Probe) : (count s probe).pruneIPs = s.pruneIPs := by
  cases probe <;> rfl

theorem called_pruneIPs (s : Scanner) (caller : Caller) : (called s caller).pruneIPs = s.pruneIPs := by
  cases caller <;> rfl

theorem enterLocked_pruneIPs (cfg : Config) (s : Scanner) (probe : Probe) (now : Time) :
    (enterLocked cfg s probe now).pruneIPs = s.pruneIPs := by
  cases probe <;> rfl

/-- A submission that is accepted enters its batch's IPs among the candidates, and clears them where it completed maintenance. -/
theorem mem_submitted_pruneIPs {s : Scanner} {rows : List IPCheck} {maintenance pruneOK : Bool} {now : Time} {ip : String} :
    ip ∈ (submitted s rows maintenance pruneOK now).pruneIPs ↔
      ¬(maintenance = true ∧ pruneOK = true) ∧ (ip ∈ s.pruneIPs ∨ ∃ c ∈ rows, c.ip = ip) := by
  cases maintenance <;> cases pruneOK <;> simp [submitted, recordPruneCandidates, mem_foldl_insert]

/-- Every step keeps the account. -/
theorem next_accounted {cfg : Config} {p p' : Process} {a : Action} (hnext : next cfg p a = some p') (h : Accounted p) :
    Accounted p' := by
  cases next_step hnext with
  | read hp hm hn => exact h.frame (count_pruneIPs _ _) rfl
  | mixed hp hm => exact h.frame (count_pruneIPs _ _) rfl
  | enter hi => exact h.frame (enterLocked_pruneIPs _ _ _ _) rfl
  | seed ha => exact h.frame rfl rfl
  | flush hw hc => exact h.frame (called_pruneIPs _ _) rfl
  | nothing hb he => exact h.frame rfl rfl
  | decide hb => exact h.frame rfl rfl
  | refresh hb => exact h.frame rfl rfl
  | keep hb hk => exact h.frame rfl rfl
  | unfetched hb => exact h.frame rfl rfl
  | refused hb =>
    refine h.request rfl ?_ fun ip => ?_
    · rintro ⟨-, hreply⟩
      cases hreply
    · simp [Request.Completes]
  | @submitted now doneAt pruneOK b m hb =>
    refine h.request rfl ?_ fun ip => ?_
    · rintro ⟨hm, -⟩ ip
      have hm : m = true := hm
      subst hm
      exact mem_pruneCandidates
    · rw [mem_submitted_pruneIPs]
      simp [Request.Completes, Request.Holds, requestOf]
  | requeue hb => exact h.frame rfl rfl
  | merge hb => exact h.frame rfl rfl
  | shutdown hw hr => exact h.frame rfl rfl
  | giveUp hw => exact h.frame rfl rfl

/-! ## The main result -/

/-- At the start every candidate is accounted for. -/
theorem start_accounted : Accounted Process.start := by
  constructor
  · intro ip
    refine iff_of_false (List.not_mem_nil) ?_
    rintro ⟨before, r, after, heq, -⟩
    cases List.nil_eq_append_iff.1 heq |>.2
  · intro before r after heq
    cases List.nil_eq_append_iff.1 heq |>.2

/-- In every run the flusher's candidates are the IPs of the batches accepted since the last maintenance request that completed,
and every completed maintenance request carried those pending before it and those of its own batch. -/
theorem no_candidate_dropped {cfg : Config} {actions : List Action} {p : Process}
    (hrun : run (next cfg) Process.start actions = some p) :
    (∀ ip, ip ∈ p.scanner.pruneIPs ↔ Pending p.history.requests ip) ∧
      ∀ before r after, p.history.requests = before ++ r :: after → r.Completes →
        ∀ ip, ip ∈ r.1.pruneIPs ↔ Pending before ip ∨ r.Holds ip := by
  have h := Transition.invariant (fun _ _ _ hnext h => next_accounted hnext h) hrun start_accounted
  exact ⟨h.candidates, h.carried⟩

/-- A flush of one success, whose reply is unreadable. -/
def unreadableRun : List Action :=
  [.read (.scan "192.0.2.1" ⟨true, 10, "", "", false⟩) 1, .enter 0, .flush .ticker, .decide 2, .fetchKnownGood 2 (some []) 2,
    .submit 2 (Submit .unreadable) 3]

/-- Its IP stays a candidate. -/
theorem no_candidate_dropped_unreadable :
    ∃ p, run (next ⟨"SNI", 0, 1⟩) Process.start unreadableRun = some p ∧ p.scanner.pruneIPs = ["192.0.2.1"] ∧
      Pending p.history.requests "192.0.2.1" := by
  have hrun : ∃ p, run (next ⟨"SNI", 0, 1⟩) Process.start unreadableRun = some p ∧ p.scanner.pruneIPs = ["192.0.2.1"] :=
    ⟨_, rfl, rfl⟩
  obtain ⟨p, hp, hips⟩ := hrun
  refine ⟨p, hp, hips, ((no_candidate_dropped hp).1 "192.0.2.1").1 ?_⟩
  rw [hips]
  exact List.mem_singleton_self _

end Gwsdb.Scan
