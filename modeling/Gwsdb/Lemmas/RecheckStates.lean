import Gwsdb.Lemmas.FilterRows

/-!
# What the scanner remembers of an IP

`recheckStates` under the operations that change it for many IPs at once: the newest pending check of an IP, one seeded target,
and the rows of an accepted submission.
-/

namespace Gwsdb.Scan

/-- The list has no success of the IP. -/
def NoSuccess (checks : List IPCheck) (ip : String) : Prop := ∀ c ∈ checks, c.ip = ip → c.ok = false

/-- Of two checks of one IP, not both successes, the first is not the newer. -/
def InTimeOrder (checks : List IPCheck) : Prop :=
  checks.Pairwise fun c d => c.ip = d.ip → (c.ok = true ∧ d.ok = true) ∨ c.checkedAt ≤ d.checkedAt

/-! ## The newest pending check -/

/-- A pending check is pending for its IP only. -/
theorem addPending_of_ne (pending : String → Option IPCheck) {c : IPCheck} {ip : String} (h : c.ip ≠ ip) :
    addPending pending c ip = pending ip := by
  unfold addPending
  cases pending c.ip with
  | none => exact Function.update_of_ne (Ne.symm h) _ _
  | some previous =>
    by_cases hlt : previous.checkedAt < c.checkedAt
    · simp only [if_pos hlt]
      exact Function.update_of_ne (Ne.symm h) _ _
    · simp only [if_neg hlt]

/-- After a check is entered, its IP has a pending check at least as new as it and as the one before. -/
theorem addPending_self (pending : String → Option IPCheck) (c : IPCheck) :
    ∃ p, addPending pending c c.ip = some p ∧ (p = c ∨ pending c.ip = some p) ∧ c.checkedAt ≤ p.checkedAt ∧
      ∀ q, pending c.ip = some q → q.checkedAt ≤ p.checkedAt := by
  unfold addPending
  cases hp : pending c.ip with
  | none => exact ⟨c, Function.update_self _ _ _, Or.inl rfl, le_refl _, nofun⟩
  | some q =>
    by_cases hlt : q.checkedAt < c.checkedAt
    · refine ⟨c, ?_, Or.inl rfl, le_refl _, ?_⟩
      · simp only [if_pos hlt, Function.update_self]
      · rintro _ ⟨⟩
        exact hlt.le
    · refine ⟨q, ?_, Or.inr rfl, not_lt.1 hlt, ?_⟩
      · simp only [if_neg hlt, hp]
      · rintro _ ⟨⟩
        exact le_refl _

/-- What is pending for an IP is one of its checks. -/
theorem mem_of_pendingOf {checks : List IPCheck} {ip : String} {p : IPCheck} (h : pendingOf checks ip = some p) :
    p ∈ checks ∧ p.ip = ip := by
  induction checks using List.reverseRecOn with
  | nil => cases h
  | append_singleton cs c ih =>
    rw [pendingOf, List.foldl_append] at h
    change addPending (pendingOf cs) c ip = some p at h
    by_cases hip : c.ip = ip
    · subst hip
      obtain ⟨q, hq, hcase, -⟩ := addPending_self (pendingOf cs) c
      rw [hq] at h
      cases h
      rcases hcase with rfl | hcase
      · exact ⟨by simp, rfl⟩
      · have hm := ih hcase
        exact ⟨by simp [hm.1], hm.2⟩
    · rw [addPending_of_ne _ hip] at h
      have hm := ih h
      exact ⟨by simp [hm.1], hm.2⟩

/-- The pending check of an IP is at least as new as every check of that IP. -/
theorem pendingOf_newest {checks : List IPCheck} {c : IPCheck} (hc : c ∈ checks) :
    ∃ p, pendingOf checks c.ip = some p ∧ c.checkedAt ≤ p.checkedAt := by
  induction checks using List.reverseRecOn with
  | nil => cases hc
  | append_singleton cs d ih =>
    rw [pendingOf, List.foldl_append]
    change ∃ p, addPending (pendingOf cs) d c.ip = some p ∧ _
    rcases List.mem_append.1 hc with hc | hc
    · obtain ⟨p, hp, hle⟩ := ih hc
      by_cases hip : d.ip = c.ip
      · obtain ⟨q, hq, -, -, hold⟩ := addPending_self (pendingOf cs) d
        rw [hip] at hq hold
        exact ⟨q, hq, hle.trans (hold p hp)⟩
      · rw [addPending_of_ne _ hip]
        exact ⟨p, hp, hle⟩
    · obtain rfl := List.mem_singleton.1 hc
      obtain ⟨q, hq, -, hle, -⟩ := addPending_self (pendingOf cs) c
      exact ⟨q, hq, hle⟩

/-! ## Seeding one target -/

/-- The state of the IP that is seeded. -/
theorem seedTarget_self (pending : String → Option IPCheck) (states : String → Option RecheckState) (target : PoolTarget) :
    seedTarget pending states target target.ip =
      some (seedPending (seedLastSeen (states target.ip) target.lastSeen) (pending target.ip)) :=
  Function.update_self _ _ _

/-- The states of other IPs stay. -/
theorem seedTarget_of_ne (pending : String → Option IPCheck) (states : String → Option RecheckState) {target : PoolTarget}
    {ip : String} (h : ip ≠ target.ip) : seedTarget pending states target ip = states ip :=
  Function.update_of_ne h _ _

/-- Looking at the server's time keeps a verdict, or replaces it by a success of that time. -/
theorem seedLastSeen_cases (st : RecheckState) (lastSeen : Time) :
    (seedLastSeen (some st) lastSeen).lastOK = st.lastOK ∧
        (seedLastSeen (some st) lastSeen).lastResultAt = st.lastResultAt ∨
      st.lastResultAt < lastSeen ∧ (seedLastSeen (some st) lastSeen).lastOK = true ∧
        (seedLastSeen (some st) lastSeen).lastResultAt = lastSeen := by
  unfold seedLastSeen
  by_cases h : st.lastResultAt < lastSeen
  · exact Or.inr ⟨h, by simp [h], by simp [h]⟩
  · exact Or.inl ⟨by simp [h], by simp [h]⟩

/-- Looking at a pending check keeps a verdict that is as new, or takes the check's. -/
theorem seedPending_cases (st : RecheckState) (p : IPCheck) :
    p.checkedAt ≤ st.lastResultAt ∧ seedPending st (some p) = st ∨
      st.lastResultAt < p.checkedAt ∧ (seedPending st (some p)).lastOK = p.ok ∧
        (seedPending st (some p)).lastResultAt = p.checkedAt := by
  unfold seedPending
  by_cases h : st.lastResultAt < p.checkedAt
  · exact Or.inr ⟨h, by simp [h], by simp [h]⟩
  · exact Or.inl ⟨not_lt.1 h, by simp [h]⟩

/-! ## Merging accepted rows -/

/-- The state that merging starts from. -/
def mergeBase (st : Option RecheckState) : RecheckState := st.getD { lastOK := false, lastSuccess := 0, lastResultAt := 0 }

/-- A merge of a check leaves the states of other IPs alone. -/
theorem mergeCheck_of_ne (states : String → Option RecheckState) {r : IPCheck} {ip : String} (h : ip ≠ r.ip) :
    mergeCheck states r ip = states ip :=
  Function.update_of_ne h _ _

/-- Merging a row keeps a verdict that is as new, or takes the row's. -/
theorem mergeCheck_self (states : String → Option RecheckState) (r : IPCheck) :
    ∃ st, mergeCheck states r r.ip = some st ∧ r.checkedAt ≤ st.lastResultAt ∧
      (mergeBase (states r.ip)).lastResultAt ≤ st.lastResultAt ∧
      (st.lastOK = (mergeBase (states r.ip)).lastOK ∧ st.lastResultAt = (mergeBase (states r.ip)).lastResultAt ∨
        st.lastOK = r.ok ∧ st.lastResultAt = r.checkedAt) := by
  refine ⟨_, Function.update_self _ _ _, ?_⟩
  unfold mergeBase
  by_cases h : ((states r.ip).getD { lastOK := false, lastSuccess := 0, lastResultAt := 0 }).lastResultAt < r.checkedAt
  · simp only [if_pos h]
    exact ⟨le_refl _, h.le, Or.inr ⟨trivial, trivial⟩⟩
  · simp only [if_neg h]
    exact ⟨not_lt.1 h, le_refl _, Or.inl ⟨trivial, trivial⟩⟩

/-- The state of an IP after rows are merged: it exists if it did or a row is of the IP, it is as new as it was and as every row,
and its verdict is that of before or that of a row of its time. -/
theorem mergeCheck_foldl (rows : List IPCheck) (states : String → Option RecheckState) (ip : String) :
    (rows.foldl mergeCheck states ip = none ↔ states ip = none ∧ ∀ r ∈ rows, r.ip ≠ ip) ∧
      ∀ st, rows.foldl mergeCheck states ip = some st →
        (∀ r ∈ rows, r.ip = ip → r.checkedAt ≤ st.lastResultAt) ∧
        (mergeBase (states ip)).lastResultAt ≤ st.lastResultAt ∧
        (st.lastOK = (mergeBase (states ip)).lastOK ∧ st.lastResultAt = (mergeBase (states ip)).lastResultAt ∨
          ∃ r ∈ rows, r.ip = ip ∧ st.lastOK = r.ok ∧ st.lastResultAt = r.checkedAt) := by
  induction rows using List.reverseRecOn with
  | nil =>
    refine ⟨by simp, fun st hst => ⟨by simp, ?_, Or.inl ?_⟩⟩ <;> simp only [List.foldl_nil] at hst <;> simp [mergeBase, hst]
  | append_singleton rs r ih =>
    obtain ⟨ih₁, ih₂⟩ := ih
    rw [List.foldl_append]
    simp only [List.foldl_cons, List.foldl_nil]
    generalize rs.foldl mergeCheck states = mid at ih₁ ih₂
    by_cases hip : r.ip = ip
    · subst hip
      obtain ⟨st, hst, hr, hbase, hcase⟩ := mergeCheck_self mid r
      refine ⟨?_, ?_⟩
      · rw [hst]
        simp
      · rintro st' hst'
        rw [hst] at hst'
        cases hst'
        cases hm : mid r.ip with
        | none =>
          obtain ⟨h₁, h₂⟩ := ih₁.1 hm
          rw [hm] at hbase hcase
          rw [h₁]
          refine ⟨fun r' hr' hip' => ?_, hbase, ?_⟩
          · rcases List.mem_append.1 hr' with h | h
            · exact absurd hip' (h₂ r' h)
            · rw [List.mem_singleton.1 h]; exact hr
          · exact hcase.imp id fun h => ⟨r, by simp, rfl, h⟩
        | some m =>
          obtain ⟨h₁, h₂, h₃⟩ := ih₂ m hm
          rw [hm] at hbase hcase
          refine ⟨fun r' hr' hip' => ?_, h₂.trans hbase, ?_⟩
          · rcases List.mem_append.1 hr' with h | h
            · exact (h₁ r' h hip').trans hbase
            · rw [List.mem_singleton.1 h]; exact hr
          · rcases hcase with ⟨hok, hat⟩ | h
            · simp only [mergeBase, Option.getD_some] at hok hat
              rw [hok, hat]
              exact h₃.imp id fun ⟨r', hr', h⟩ => ⟨r', by simp [hr'], h⟩
            · exact Or.inr ⟨r, by simp, rfl, h⟩
    · rw [mergeCheck_of_ne mid (Ne.symm hip)]
      refine ⟨?_, fun st hst => ?_⟩
      · rw [ih₁]
        constructor
        · rintro ⟨h₁, h₂⟩
          refine ⟨h₁, fun r' hr' => ?_⟩
          rcases List.mem_append.1 hr' with h | h
          · exact h₂ r' h
          · rw [List.mem_singleton.1 h]; exact hip
        · rintro ⟨h₁, h₂⟩
          exact ⟨h₁, fun r' hr' => h₂ r' (by simp [hr'])⟩
      · obtain ⟨h₁, h₂, h₃⟩ := ih₂ st hst
        refine ⟨fun r' hr' hip' => ?_, h₂, h₃.imp id fun ⟨r', hr', h⟩ => ⟨r', by simp [hr'], h⟩⟩
        rcases List.mem_append.1 hr' with h | h
        · exact h₁ r' h hip'
        · rw [List.mem_singleton.1 h] at hip'
          exact absurd hip' hip

/-! ## The last success -/

/-- The last success of every state has a property. -/
def EachLastSuccess (P : String → Time → Prop) (states : String → Option RecheckState) : Prop :=
  ∀ ip st, states ip = some st → P ip st.lastSuccess

namespace EachLastSuccess

variable {P : String → Time → Prop} {states : String → Option RecheckState}

/-- A state that keeps to the bound may be put in. -/
theorem update (h : EachLastSuccess P states) {ip : String} {new : Option RecheckState}
    (hnew : ∀ st, new = some st → P ip st.lastSuccess) : EachLastSuccess P (Function.update states ip new) := by
  intro ip' st hst
  by_cases hip : ip' = ip
  · subst hip
    rw [Function.update_self] at hst
    exact hnew st hst
  · rw [Function.update_of_ne hip] at hst
    exact h ip' st hst

/-- A target gives its state the last success of before, the server's time, or the time of a pending success. -/
theorem seedTarget (h : EachLastSuccess P states) {pending : String → Option IPCheck} {target : PoolTarget}
    (hseen : P target.ip target.lastSeen) (hpending : ∀ c, pending target.ip = some c → c.ok = true → P target.ip c.checkedAt) :
    EachLastSuccess P (seedTarget pending states target) := by
  have hbefore : P target.ip (seedLastSeen (states target.ip) target.lastSeen).lastSuccess := by
    cases hst : states target.ip with
    | none => exact hseen
    | some st =>
      simp only [seedLastSeen]
      split
      · exact hseen
      · exact h _ st hst
  refine h.update ?_
  rintro st ⟨⟩
  cases hp : pending target.ip with
  | none => exact hbefore
  | some c =>
    simp only [seedPending]
    split
    · show P target.ip (if c.ok then c.checkedAt else _)
      split
      · rename_i hok
        exact hpending c hp hok
      · exact hbefore
    · exact hbefore

/-- Seeding keeps to the bound where what is pending and what was seen do. -/
theorem seeds {pending : String → Option IPCheck} (hpending : ∀ ip c, pending ip = some c → c.ok = true → P ip c.checkedAt)
    (targets : List PoolTarget) (hseen : ∀ target ∈ targets, P target.ip target.lastSeen) (h : EachLastSuccess P states) :
    EachLastSuccess P (targets.foldl (Scan.seedTarget pending) states) := by
  induction targets generalizing states with
  | nil => exact h
  | cons target targets ih =>
    refine ih (fun t ht => hseen t (List.mem_cons_of_mem _ ht)) (h.seedTarget (hseen target List.mem_cons_self) ?_)
    exact hpending target.ip

/-- An accepted row gives its state the last success of before, or its own time where it is a success. -/
theorem mergeCheck (h : EachLastSuccess P states) {r : IPCheck} (hzero : P r.ip 0) (hr : r.ok = true → P r.ip r.checkedAt) :
    EachLastSuccess P (mergeCheck states r) := by
  refine h.update ?_
  rintro st ⟨⟩
  show P r.ip (if _ then r.checkedAt else ((states r.ip).getD _).lastSuccess)
  split
  · rename_i hnewer
    exact hr hnewer.1
  · cases hst : states r.ip with
    | none => exact hzero
    | some st => exact h _ st hst

/-- So does merging where the rows do. -/
theorem merges (hzero : ∀ ip, P ip 0) (rows : List IPCheck) (hrows : ∀ r ∈ rows, r.ok = true → P r.ip r.checkedAt)
    (h : EachLastSuccess P states) : EachLastSuccess P (rows.foldl Scan.mergeCheck states) := by
  induction rows generalizing states with
  | nil => exact h
  | cons r rows ih =>
    exact ih (fun r' hr' => hrows r' (List.mem_cons_of_mem _ hr')) (h.mergeCheck (hzero r.ip) (hrows r List.mem_cons_self))

end EachLastSuccess

end Gwsdb.Scan
