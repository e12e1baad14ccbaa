import Gwsdb.Scan.Scanner
import Mathlib.Tactic

/-!
# What the submitted rows say

Facts about `rowsOf`, the rows of one flush: each row is about an IP, a verdict and a time of one of the flush's checks, and
an IP with a success in the flush has a success row with the time of its last success. Clock readings are never the zero
time, so the checks are dated.
-/

namespace Gwsdb.Scan

/-- No check has the zero time. -/
def Dated (checks : List IPCheck) : Prop := ∀ c ∈ checks, c.checkedAt ≠ 0

/-- Two checks of one IP with one verdict and one time. -/
def Agrees (c d : IPCheck) : Prop := c.ip = d.ip ∧ c.ok = d.ok ∧ c.checkedAt = d.checkedAt

/-- The last success of an IP in a list of checks. -/
def lastSuccess (checks : List IPCheck) (ip : String) : Option IPCheck :=
  (checks.filter fun c => c.ok && decide (c.ip = ip)).getLast?

/-- The last success of two lists is that of the second, if it has one. -/
theorem lastSuccess_append (cs ds : List IPCheck) (ip : String) :
    lastSuccess (cs ++ ds) ip = (lastSuccess ds ip).or (lastSuccess cs ip) := by
  unfold lastSuccess
  rw [List.filter_append, List.getLast?_append]

/-- One more check: a success of the IP is its last. -/
theorem lastSuccess_snoc (cs : List IPCheck) (c : IPCheck) (ip : String) :
    lastSuccess (cs ++ [c]) ip = if c.ok = true ∧ c.ip = ip then some c else lastSuccess cs ip := by
  rw [lastSuccess_append]
  unfold lastSuccess
  by_cases h : c.ok = true ∧ c.ip = ip
  · rw [if_pos h]
    simp [h.1, h.2]
  · rw [if_neg h]
    have hf : List.filter (fun c => c.ok && decide (c.ip = ip)) [c] = [] := by simpa using h
    rw [hf]
    rfl

/-- The last success of an IP is a success of it. -/
theorem mem_of_lastSuccess {cs : List IPCheck} {ip : String} {g : IPCheck} (h : lastSuccess cs ip = some g) :
    g ∈ cs ∧ g.ok = true ∧ g.ip = ip := by
  have hm := List.mem_filter.1 (List.mem_of_getLast? h)
  simpa using hm

/-- An IP with a success has a last one. -/
theorem lastSuccess_isSome {cs : List IPCheck} {c : IPCheck} (hc : c ∈ cs) (hok : c.ok = true) :
    ∃ g, lastSuccess cs c.ip = some g := by
  have hm : c ∈ cs.filter fun d => d.ok && decide (d.ip = c.ip) := by simp [hc, hok]
  exact Option.isSome_iff_exists.1 (List.getLast?_isSome.2 (List.ne_nil_of_mem hm))

/-- After the last success of an IP come no more of them. -/
theorem lastSuccess_split {cs : List IPCheck} {ip : String} {g : IPCheck} (h : lastSuccess cs ip = some g) :
    ∃ as bs, cs = as ++ g :: bs ∧ ∀ c ∈ bs, c.ip = ip → c.ok = false := by
  induction cs using List.reverseRecOn with
  | nil => cases h
  | append_singleton cs c ih =>
    rw [lastSuccess_snoc] at h
    split at h
    · cases h
      exact ⟨cs, [], rfl, by simp⟩
    · rename_i hc
      obtain ⟨as, bs, rfl, hbs⟩ := ih h
      refine ⟨as, bs ++ [c], by simp, fun d hd hip => ?_⟩
      rcases List.mem_append.1 hd with hd | hd
      · exact hbs d hd hip
      · rw [List.mem_singleton.1 hd] at hip ⊢
        simpa [hip] using hc

/-! ## The maps and the results -/

theorem exists_mem_snoc {α : Type} {p : α → Prop} (l : List α) (a : α) :
    (∃ x ∈ l ++ [a], p x) ↔ (∃ x ∈ l, p x) ∨ p a := by
  simp only [List.mem_append, List.mem_singleton, or_and_right, exists_or, exists_eq_left]

/-- The last check of an IP with a property. -/
def lastWith (q : IPCheck → Bool) (checks : List IPCheck) (ip : String) : Option IPCheck :=
  (checks.filter fun c => q c && decide (c.ip = ip)).getLast?

/-- One check more is the last of its kind, or changes nothing. -/
theorem lastWith_snoc (q : IPCheck → Bool) (cs : List IPCheck) (c : IPCheck) (ip : String) :
    lastWith q (cs ++ [c]) ip = if q c = true ∧ c.ip = ip then some c else lastWith q cs ip := by
  unfold lastWith
  rw [List.filter_append, List.getLast?_append]
  by_cases h : q c = true ∧ c.ip = ip
  · rw [if_pos h]
    simp [h.1, h.2]
  · rw [if_neg h]
    have hnone : List.filter (fun c => q c && decide (c.ip = ip)) [c] = [] := by simpa using h
    rw [hnone]
    rfl

/-- The last check of a kind is one of it. -/
theorem mem_of_lastWith {q : IPCheck → Bool} {cs : List IPCheck} {ip : String} {c : IPCheck} (h : lastWith q cs ip = some c) :
    c ∈ cs ∧ q c = true ∧ c.ip = ip := by
  have hm := List.mem_filter.1 (List.mem_of_getLast? h)
  simpa using hm

/-- A success with a time. -/
def datedSuccess (c : IPCheck) : Bool := c.ok && decide (c.checkedAt ≠ 0)

/-- What the maps hold of an IP: the time of its last dated success, and the last detail and the last reason of its dated
successes that are not empty. -/
theorem seenOf_eq (checks : List IPCheck) (ip : String) :
    (seenOf checks).seenAt ip = (lastWith datedSuccess checks ip).map IPCheck.checkedAt ∧
    (seenOf checks).detailByIP ip = (lastWith (fun c => datedSuccess c && decide (c.detail ≠ "")) checks ip).map IPCheck.detail ∧
    (seenOf checks).reasonByIP ip = (lastWith (fun c => datedSuccess c && decide (c.reason ≠ "")) checks ip).map
        IPCheck.reason := by
  induction checks using List.reverseRecOn with
  | nil => exact ⟨rfl, rfl, rfl⟩
  | append_singleton cs c ih =>
    have hstep : seenOf (cs ++ [c]) = (seenOf cs).add c := by
      rw [seenOf, List.foldl_append]
      rfl
    rw [hstep, lastWith_snoc, lastWith_snoc, lastWith_snoc]
    obtain ⟨hseen, hdetail, hreason⟩ := ih
    unfold Seen.add
    by_cases hdated : c.ok = true ∧ c.checkedAt ≠ 0
    · have hd : datedSuccess c = true := by simpa [datedSuccess] using hdated
      rw [if_pos hdated]
      by_cases hip : c.ip = ip
      · subst hip
        refine ⟨by simp [hd], ?_, ?_⟩
        · by_cases h : c.detail = "" <;> simp [hd, h, hdetail]
        · by_cases h : c.reason = "" <;> simp [hd, h, hreason]
      · refine ⟨by simp [hip, Ne.symm hip, hseen], ?_, ?_⟩
        · by_cases h : c.detail = "" <;> simp [hip, Ne.symm hip, h, hdetail]
        · by_cases h : c.reason = "" <;> simp [hip, Ne.symm hip, h, hreason]
    · have hd : datedSuccess c = false := by
        rw [Bool.eq_false_iff]
        exact fun h => hdated (by simpa [datedSuccess] using h)
      rw [if_neg hdated]
      simp [hd, hseen, hdetail, hreason]

/-- `seenAt` holds the time of the last success. -/
theorem seenAt_eq {checks : List IPCheck} (hd : Dated checks) (ip : String) :
    (seenOf checks).seenAt ip = (lastSuccess checks ip).map IPCheck.checkedAt := by
  have hdated : checks.filter (fun c => datedSuccess c && decide (c.ip = ip)) = checks.filter fun c =>
      c.ok && decide (c.ip = ip) := by
    refine List.filter_congr fun c hc => ?_
    simp [datedSuccess, hd c hc]
  rw [(seenOf_eq checks ip).1, lastWith, hdated, lastSuccess]

/-- The state of `addSuccess` after the checks: the IPs seen are those of the results, and those with a success. -/
theorem addSuccess_spec (checks : List IPCheck) (ip : String) :
    (ip ∈ (checks.foldl addSuccess ([], [])).1 ↔ ∃ c ∈ checks, c.ok = true ∧ c.ip = ip) ∧
      (ip ∈ (checks.foldl addSuccess ([], [])).1 ↔ ∃ r ∈ (checks.foldl addSuccess ([], [])).2, r.ip = ip) := by
  induction checks using List.reverseRecOn with
  | nil => simp
  | append_singleton cs c ih =>
    rw [List.foldl_append]
    simp only [List.foldl_cons, List.foldl_nil]
    generalize cs.foldl addSuccess ([], []) = st at ih
    obtain ⟨seen, rs⟩ := st
    simp only at ih
    obtain ⟨h₁, h₂⟩ := ih
    unfold addSuccess
    rw [exists_mem_snoc]
    by_cases hc : c.ok = true ∧ c.ip ∉ seen
    · rw [if_pos hc]
      simp only [exists_mem_snoc, List.mem_cons, ← h₁, ← h₂, hc.1, true_and]
      constructor <;> tauto
    · simp only [if_neg hc]
      refine ⟨?_, h₂⟩
      constructor
      · intro h
        exact Or.inl (h₁.1 h)
      · rintro (h | ⟨hok, rfl⟩)
        · exact h₁.2 h
        · by_contra hn
          exact hc ⟨hok, hn⟩

/-- The hit list names exactly the IPs with a success. -/
theorem mem_resultsOf (checks : List IPCheck) (ip : String) :
    (∃ r ∈ resultsOf checks, r.ip = ip) ↔ ∃ c ∈ checks, c.ok = true ∧ c.ip = ip := by
  obtain ⟨h₁, h₂⟩ := addSuccess_spec checks ip
  exact h₂.symm.trans h₁

/-! ## The rows -/

/-- The loop over the results: the rows are result rows, and the IPs of all results have one. -/
theorem addResult_spec (m : Seen) (now : Time) (results : List ScanResult) :
    (∀ ip, ip ∈ (results.foldl (addResult m now) ([], [])).1 →
      ∃ row ∈ (results.foldl (addResult m now) ([], [])).2, row.ip = ip) ∧
    (∀ r ∈ results, r.ip ∈ (results.foldl (addResult m now) ([], [])).1) ∧
    (∀ row ∈ (results.foldl (addResult m now) ([], [])).2, ∃ r ∈ results, row = resultRow m now r) := by
  induction results using List.reverseRecOn with
  | nil => simp
  | append_singleton rs r ih =>
    rw [List.foldl_append]
    simp only [List.foldl_cons, List.foldl_nil]
    generalize rs.foldl (addResult m now) ([], []) = st at ih
    obtain ⟨recorded, out⟩ := st
    obtain ⟨h₁, h₂, h₃⟩ := ih
    simp only at h₁ h₂ h₃
    unfold addResult
    by_cases hr : r.ip ∈ recorded
    · simp only [if_pos hr]
      refine ⟨h₁, fun r' hr' => ?_, fun row hrow => ?_⟩
      · rcases List.mem_append.1 hr' with h | h
        · exact h₂ r' h
        · rw [List.mem_singleton.1 h]; exact hr
      · obtain ⟨r', hr', he⟩ := h₃ row hrow
        exact ⟨r', by simp [hr'], he⟩
    · simp only [if_neg hr]
      refine ⟨fun ip hip => ?_, fun r' hr' => ?_, fun row hrow => ?_⟩
      · rcases List.mem_cons.1 hip with rfl | h
        · exact ⟨resultRow m now r, by simp, rfl⟩
        · obtain ⟨row, hrow, he⟩ := h₁ ip h
          exact ⟨row, by simp [hrow], he⟩
      · rcases List.mem_append.1 hr' with h | h
        · exact List.mem_cons_of_mem _ (h₂ r' h)
        · rw [List.mem_singleton.1 h]; exact List.mem_cons_self
      · rcases List.mem_append.1 hrow with h | h
        · obtain ⟨r', hr', he⟩ := h₃ row h
          exact ⟨r', by simp [hr'], he⟩
        · exact ⟨r, by simp, List.mem_singleton.1 h⟩

/-- The loop over the checks keeps the rows it starts from and adds rows of its checks. -/
theorem addCheck_spec (known : List String) (now : Time) (checks : List IPCheck) (st : List String × List IPCheck) :
    (∀ row ∈ st.2, row ∈ (checks.foldl (addCheck known now) st).2) ∧
    (∀ row ∈ (checks.foldl (addCheck known now) st).2, row ∈ st.2 ∨ ∃ c ∈ checks, row = checkRow now c) := by
  have hstep : ∀ (st : List String × List IPCheck) (c : IPCheck),
      (addCheck known now st c).2 = st.2 ∨ (addCheck known now st c).2 = st.2 ++ [checkRow now c] := by
    intro st c
    unfold addCheck
    split <;> split <;> simp
  induction checks generalizing st with
  | nil => simp
  | cons c cs ih =>
    obtain ⟨h₁, h₂⟩ := ih (addCheck known now st c)
    simp only [List.foldl_cons]
    refine ⟨fun row hrow => h₁ row ?_, fun row hrow => ?_⟩
    · rcases hstep st c with h | h <;> rw [h]
      · exact hrow
      · exact List.mem_append_left _ hrow
    · rcases h₂ row hrow with hm | ⟨d, hd, he⟩
      · rcases hstep st c with h | h <;> rw [h] at hm
        · exact Or.inl hm
        · rcases List.mem_append.1 hm with hm | hm
          · exact Or.inl hm
          · exact Or.inr ⟨c, by simp, List.mem_singleton.1 hm⟩
      · exact Or.inr ⟨d, by simp [hd], he⟩

/-- A result row agrees with the last success of its IP. -/
theorem resultRow_agrees {checks : List IPCheck} (hd : Dated checks) (now : Time) {r : ScanResult}
    (hr : r ∈ resultsOf checks) : ∃ g, lastSuccess checks r.ip = some g ∧ Agrees g (resultRow (seenOf checks) now r) := by
  obtain ⟨c, hc, hok, hip⟩ := (mem_resultsOf checks r.ip).1 ⟨r, hr, rfl⟩
  obtain ⟨g, hg⟩ := lastSuccess_isSome hc hok
  rw [hip] at hg
  obtain ⟨-, hgok, hgip⟩ := mem_of_lastSuccess hg
  refine ⟨g, hg, hgip, hgok, ?_⟩
  show g.checkedAt = ((seenOf checks).seenAt r.ip).getD now
  rw [seenAt_eq hd, hg]
  rfl

/-- Every submitted row agrees with a check of the flush. -/
theorem rowsOf_source {cfg : Config} {checks : List IPCheck} {known : List String} {now : Time} (hd : Dated checks)
    {row : IPCheck} (h : row ∈ rowsOf cfg checks known now) : ∃ c ∈ checks, Agrees c row := by
  obtain ⟨row', hrow', rfl⟩ := List.mem_map.1 h
  rcases (addCheck_spec known now checks _).2 row' hrow' with h₁ | ⟨c, hc, rfl⟩
  · obtain ⟨r, hr, rfl⟩ := (addResult_spec (seenOf checks) now (resultsOf checks)).2.2 row' h₁
    obtain ⟨g, hg, ha⟩ := resultRow_agrees hd now hr
    exact ⟨g, (mem_of_lastSuccess hg).1, ha⟩
  · refine ⟨c, hc, rfl, rfl, ?_⟩
    show c.checkedAt = if c.checkedAt = 0 then now else c.checkedAt
    rw [if_neg (hd c hc)]

/-- The last success of an IP in a flush is submitted with its time. -/
theorem rowsOf_lastSuccess (cfg : Config) {checks : List IPCheck} (known : List String) (now : Time) (hd : Dated checks)
    {ip : String} {g : IPCheck} (hg : lastSuccess checks ip = some g) : ∃ row ∈ rowsOf cfg checks known now, Agrees g row := by
  obtain ⟨hm, hok, hip⟩ := mem_of_lastSuccess hg
  obtain ⟨r, hr, hrip⟩ := (mem_resultsOf checks ip).2 ⟨g, hm, hok, hip⟩
  obtain ⟨h₁, h₂, h₃⟩ := addResult_spec (seenOf checks) now (resultsOf checks)
  obtain ⟨row, hrow, hrowip⟩ := h₁ r.ip (h₂ r hr)
  obtain ⟨r', hr', rfl⟩ := h₃ row hrow
  obtain ⟨g', hg', ha⟩ := resultRow_agrees hd now hr'
  have hip' : r'.ip = ip := Eq.trans hrowip hrip
  rw [hip', hg] at hg'
  cases hg'
  refine ⟨{ resultRow (seenOf checks) now r' with scanMode := cfg.scanMode }, ?_, ha⟩
  exact List.mem_map.2 ⟨_, (addCheck_spec known now checks _).1 _ hrow, rfl⟩

end Gwsdb.Scan
