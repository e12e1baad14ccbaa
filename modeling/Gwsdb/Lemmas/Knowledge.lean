import Gwsdb.Lemmas.RecheckStates

/-!
# What the scanner knows of the failures

`Knowledge` collects what decides whether a success is suppressed: the remembered states, the targets seeded, the accepted rows,
and the pending checks (the batch in flight and the buffer). `Sound` is the invariant: every failure of an IP among the accepted
rows and the pending checks is remembered as the last verdict, or a later success of that IP is seeded, accepted or pending. There
is one lemma for each way the knowledge changes.
-/

namespace Gwsdb.Scan

/-- The states, the targets seeded, the rows accepted, those of them not merged yet, the checks
pending, and all checks persisted. -/
structure Knowledge where
  states : String → Option RecheckState
  seeded : List PoolTarget
  accepted : List IPCheck
  merging : List IPCheck
  pending : List IPCheck
  persisted : List IPCheck

namespace Knowledge

/-- A success of the IP, not older than `t`, was seeded, is accepted, or is the IP's last pending one. -/
def Witnessed (k : Knowledge) (ip : String) (t : Time) : Prop :=
  (∃ s ∈ k.seeded, s.ip = ip ∧ t ≤ s.lastSeen) ∨ (∃ r ∈ k.accepted, r.ip = ip ∧ r.ok = true ∧ t ≤ r.checkedAt) ∨
    ∃ g, lastSuccess k.pending ip = some g ∧ t ≤ g.checkedAt

/-- A failure of the IP at `t` is remembered as the last verdict, or a later success is witnessed. -/
def Known (k : Knowledge) (ip : String) (t : Time) : Prop :=
  ∃ st, k.states ip = some st ∧ (st.lastOK = false ∧ t ≤ st.lastResultAt ∨ k.Witnessed ip t)

/-- Nothing but failures of the IP has been persisted, and its state says so. -/
def OnlyFailures (k : Knowledge) (ip : String) : Prop :=
  ∃ st, k.states ip = some st ∧ st.lastOK = false ∧ NoSuccess k.persisted ip

structure Sound (k : Knowledge) : Prop where
  suffix : k.pending <:+ k.persisted
  inOrder : InTimeOrder k.persisted
  acceptedSource : ∀ r ∈ k.accepted, ∃ c ∈ k.persisted, Agrees c r
  mergingSource : ∀ r ∈ k.merging, r ∈ k.accepted ∧ ∃ c ∈ k.pending, Agrees c r
  tracked : ∀ s ∈ k.seeded, k.states s.ip ≠ none
  untracked : ∀ ip, k.states ip = none → NoSuccess k.persisted ip
  acceptedKnown : ∀ r ∈ k.accepted, r.ok = false → r ∈ k.merging ∨ k.Known r.ip r.checkedAt
  pendingKnown : ∀ c ∈ k.pending, c.ok = false → k.states c.ip = none ∨ k.Known c.ip c.checkedAt ∨ k.OnlyFailures c.ip

/-- What is known stays known where the states stay and the witnesses do. -/
theorem Known.mono {k k' : Knowledge} {ip : String} {t : Time} (h : k.Known ip t) (hst : k'.states ip = k.states ip)
    (hw : k.Witnessed ip t → k'.Witnessed ip t) : k'.Known ip t := by
  obtain ⟨st, h₁, h₂⟩ := h
  exact ⟨st, hst.trans h₁, h₂.imp id hw⟩

/-- A state whose last verdict is a success relies on witnesses alone. -/
theorem Known.witnessed {k : Knowledge} {ip : String} {t : Time} (h : k.Known ip t) {st : RecheckState}
    (hst : k.states ip = some st) (hok : st.lastOK = true) : k.Witnessed ip t := by
  obtain ⟨st', h₁, ⟨h₂, -⟩ | h₂⟩ := h
  · rw [hst] at h₁
    cases h₁
    rw [hok] at h₂
    cases h₂
  · exact h₂

/-- The last pending success of an IP is not older than a failure that a pending success is newer than: the success comes after
the failure, and so does the last one. -/
theorem Sound.lastSuccess_newer {k : Knowledge} (hs : k.Sound) {f p : IPCheck} (hf : f ∈ k.persisted) (hfok : f.ok = false)
    (hp : p ∈ k.pending) (hpok : p.ok = true) (hip : p.ip = f.ip) (hlt : f.checkedAt < p.checkedAt) :
    ∃ g, lastSuccess k.pending f.ip = some g ∧ f.checkedAt ≤ g.checkedAt := by
  obtain ⟨g, hg⟩ := lastSuccess_isSome hp hpok
  rw [hip] at hg
  obtain ⟨-, hgok, hgip⟩ := mem_of_lastSuccess hg
  refine ⟨g, hg, ?_⟩
  obtain ⟨as, bs, hsplit, hbs⟩ := lastSuccess_split hg
  obtain ⟨old, hold⟩ := hs.suffix
  have ho := hs.inOrder
  rw [← hold, hsplit] at hf ho
  rw [hsplit] at hp
  unfold InTimeOrder at ho
  rw [← List.append_assoc] at hf ho
  obtain ⟨-, htail, hcross⟩ := List.pairwise_append.1 ho
  rcases List.mem_append.1 hf with hf | hf
  · -- the failure comes before the last success
    rcases hcross f hf g List.mem_cons_self hgip.symm with ⟨h, -⟩ | h
    · rw [hfok] at h
      cases h
    · exact h
  · rcases List.mem_cons.1 hf with hfg | hf
    · rw [← hfg, hfok] at hgok
      cases hgok
    · -- the failure comes after the last success, so after `p`, which is newer
      exfalso
      have hpf : (p.ok = true ∧ f.ok = true) ∨ p.checkedAt ≤ f.checkedAt := by
        rcases List.mem_append.1 hp with hp | hp
        · exact hcross p (List.mem_append_right _ hp) f (List.mem_cons_of_mem _ hf) hip
        · rcases List.mem_cons.1 hp with hpg | hp
          · rw [hpg] at hip ⊢
            exact (List.pairwise_cons.1 htail).1 f hf hip
          · have hno := hbs p hp hip
            rw [hpok] at hno
            cases hno
      rcases hpf with ⟨-, h⟩ | h
      · rw [hfok] at h
        cases h
      · exact absurd hlt (not_lt.2 h)

/-! ## A result recorded -/

/-- The knowledge after a worker gave the IP the state `st` and persisted the checks `d`. -/
def record (k : Knowledge) (ip : String) (st : Option RecheckState) (d : List IPCheck) : Knowledge :=
  { k with states := Function.update k.states ip st, pending := k.pending ++ d, persisted := k.persisted ++ d }

/-- Checks of one IP have no success of another. -/
theorem lastSuccess_of_ne {d : List IPCheck} {ip ip' : String} (hd : ∀ c ∈ d, c.ip = ip) (hne : ip' ≠ ip) :
    lastSuccess d ip' = none := by
  cases h : lastSuccess d ip' with
  | none => rfl
  | some g =>
    obtain ⟨hm, -, hip⟩ := mem_of_lastSuccess h
    exact absurd (hip.symm.trans (hd g hm)) hne

/-- What is recorded of one IP leaves what is known of others. -/
theorem Known.record_of_ne {k : Knowledge} {ip ip' : String} {t : Time} (h : k.Known ip' t) {st : Option RecheckState}
    {d : List IPCheck} (hd : ∀ c ∈ d, c.ip = ip) (hne : ip' ≠ ip) : (k.record ip st d).Known ip' t := by
  refine h.mono (Function.update_of_ne hne _ _) fun hw => ?_
  refine hw.imp id (Or.imp id fun ⟨g, hg, hle⟩ => ⟨g, ?_, hle⟩)
  show lastSuccess (k.pending ++ d) ip' = some g
  rw [lastSuccess_append, lastSuccess_of_ne hd hne, hg]
  rfl

/-- Recording keeps the knowledge sound, when it keeps the order and knows the IP's failures afterwards, or leaves an IP without a
state without one. -/
theorem Sound.record {k : Knowledge} (hs : k.Sound) {ip : String} {st : Option RecheckState} {d : List IPCheck}
    (hd : ∀ c ∈ d, c.ip = ip) (hord : InTimeOrder (k.persisted ++ d))
    (hnone : st = none → k.states ip = none ∧ NoSuccess d ip)
    (hacc : st ≠ none → ∀ r ∈ k.accepted, r.ip = ip → r.ok = false → k.Known ip r.checkedAt →
      (k.record ip st d).Known ip r.checkedAt)
    (hpend : st ≠ none → ∀ c ∈ k.pending ++ d, c.ip = ip → c.ok = false → (k.record ip st d).Known ip c.checkedAt) :
    (k.record ip st d).Sound where
  suffix := by
    obtain ⟨old, ho⟩ := hs.suffix
    exact ⟨old, by simp only [Knowledge.record, ← ho, List.append_assoc]⟩
  inOrder := hord
  acceptedSource := by
    intro r hr
    obtain ⟨c, hc, ha⟩ := hs.acceptedSource r hr
    exact ⟨c, List.mem_append_left _ hc, ha⟩
  mergingSource := by
    intro r hr
    obtain ⟨h₁, c, hc, ha⟩ := hs.mergingSource r hr
    exact ⟨h₁, c, List.mem_append_left _ hc, ha⟩
  tracked := by
    intro s hsm
    show Function.update k.states ip st s.ip ≠ none
    by_cases hip : s.ip = ip
    · rw [hip, Function.update_self]
      intro hst
      exact hs.tracked s hsm (hip ▸ (hnone hst).1)
    · rw [Function.update_of_ne hip]
      exact hs.tracked s hsm
  untracked := by
    intro ip' hst c hc hcip
    change Function.update k.states ip st ip' = none at hst
    by_cases hip : ip' = ip
    · subst hip
      rw [Function.update_self] at hst
      rcases List.mem_append.1 hc with hc | hc
      · exact hs.untracked ip' (hnone hst).1 c hc hcip
      · exact (hnone hst).2 c hc hcip
    · rw [Function.update_of_ne hip] at hst
      rcases List.mem_append.1 hc with hc | hc
      · exact hs.untracked ip' hst c hc hcip
      · exact absurd (hcip.symm.trans (hd c hc)) hip
  acceptedKnown := by
    intro r hr hok
    refine (hs.acceptedKnown r hr hok).imp id fun hk => ?_
    by_cases hip : r.ip = ip
    · rw [hip] at hk ⊢
      by_cases hst : st = none
      · obtain ⟨st', h', -⟩ := hk
        rw [(hnone hst).1] at h'
        cases h'
      · exact hacc hst r hr hip hok hk
    · exact hk.record_of_ne hd hip
  pendingKnown := by
    intro c hc hok
    by_cases hip : c.ip = ip
    · by_cases hst : st = none
      · left
        show Function.update k.states ip st c.ip = none
        rw [hip, Function.update_self, hst]
      · right; left
        rw [hip]
        exact hpend hst c hc hip hok
    · have hmem : c ∈ k.pending := by
        rcases List.mem_append.1 hc with hc | hc
        · exact hc
        · exact absurd (hd c hc) hip
      have hst : (k.record ip st d).states c.ip = k.states c.ip := Function.update_of_ne hip _ _
      rcases hs.pendingKnown c hmem hok with h | h | ⟨st', h₁, h₂, h₃⟩
      · exact Or.inl (hst.trans h)
      · exact Or.inr (Or.inl (h.record_of_ne hd hip))
      · refine Or.inr (Or.inr ⟨st', hst.trans h₁, h₂, fun e he heip => ?_⟩)
        rcases List.mem_append.1 he with he | he
        · exact h₃ e he heip
        · exact absurd (heip.symm.trans (hd e he)) hip

/-- One more check at the end keeps the order, when it is not older than the checks of its IP that are
not both successes with it. -/
theorem inTimeOrder_snoc {cs : List IPCheck} {d : IPCheck} (hcs : InTimeOrder cs)
    (hd : ∀ c ∈ cs, c.ip = d.ip → (c.ok = true ∧ d.ok = true) ∨ c.checkedAt ≤ d.checkedAt) : InTimeOrder (cs ++ [d]) := by
  unfold InTimeOrder
  rw [List.pairwise_append]
  refine ⟨hcs, List.pairwise_singleton _ _, fun c hc e he hip => ?_⟩
  rw [List.mem_singleton.1 he] at hip ⊢
  exact hd c hc hip

/-- A persisted success that is not older than the failures of its IP is a witness against all of them. -/
theorem Sound.record_success {k : Knowledge} (hs : k.Sound) {st : RecheckState} {d : IPCheck} (hok : d.ok = true)
    (hle : ∀ c ∈ k.persisted, c.ip = d.ip → (c.ok = true ∧ d.ok = true) ∨ c.checkedAt ≤ d.checkedAt) :
    (k.record d.ip (some st) [d]).Sound := by
  have hknown : ∀ c ∈ k.persisted, c.ip = d.ip → c.ok = false → (k.record d.ip (some st) [d]).Known d.ip c.checkedAt := by
    intro c hc hip hcok
    refine ⟨st, Function.update_self _ _ _, Or.inr (Or.inr (Or.inr ⟨d, ?_, ?_⟩))⟩
    · show lastSuccess (k.pending ++ [d]) d.ip = some d
      rw [lastSuccess_snoc, if_pos ⟨hok, rfl⟩]
    · rcases hle c hc hip with ⟨h, -⟩ | h
      · rw [hcok] at h
        cases h
      · exact h
  refine hs.record (by simp) (inTimeOrder_snoc hs.inOrder hle) nofun (fun _ r hr hip hrok _ => ?_) (fun _ c hc hip hcok => ?_)
  · obtain ⟨c, hc, h₁, h₂, h₃⟩ := hs.acceptedSource r hr
    rw [← h₃]
    exact hknown c hc (h₁.trans hip) (h₂.trans hrok)
  · rcases List.mem_append.1 hc with hc | hc
    · exact hknown c (hs.suffix.subset hc) hip hcok
    · rw [List.mem_singleton.1 hc, hok] at hcok
      cases hcok

/-- A persisted failure that is not older than the checks of its IP is remembered, and all its failures with it. -/
theorem Sound.record_failure {k : Knowledge} (hs : k.Sound) {st : RecheckState} {d : IPCheck} (hok : d.ok = false)
    (hst : st.lastOK = false) (hat : st.lastResultAt = d.checkedAt)
    (hle : ∀ c ∈ k.persisted, c.ip = d.ip → (c.ok = true ∧ d.ok = true) ∨ c.checkedAt ≤ d.checkedAt) :
    (k.record d.ip (some st) [d]).Sound := by
  have hknown : ∀ t, t ≤ d.checkedAt → (k.record d.ip (some st) [d]).Known d.ip t := by
    intro t ht
    exact ⟨st, Function.update_self _ _ _, Or.inl ⟨hst, by rw [hat]; exact ht⟩⟩
  have hold : ∀ c ∈ k.persisted, c.ip = d.ip → c.checkedAt ≤ d.checkedAt := by
    intro c hc hip
    rcases hle c hc hip with ⟨-, h⟩ | h
    · rw [hok] at h
      cases h
    · exact h
  refine hs.record (by simp) (inTimeOrder_snoc hs.inOrder hle) nofun (fun _ r hr hip hrok _ => ?_) (fun _ c hc hip hcok => ?_)
  · obtain ⟨c, hc, h₁, -, h₃⟩ := hs.acceptedSource r hr
    rw [← h₃]
    exact hknown _ (hold c hc (h₁.trans hip))
  · rcases List.mem_append.1 hc with hc | hc
    · exact hknown _ (hold c (hs.suffix.subset hc) hip)
    · rw [List.mem_singleton.1 hc]
      exact hknown _ (le_refl _)

/-- A persisted failure of an IP without a state. -/
theorem Sound.record_unknown {k : Knowledge} (hs : k.Sound) {d : IPCheck} (hok : d.ok = false) (hnone : k.states d.ip = none)
    (hle : ∀ c ∈ k.persisted, c.ip = d.ip → (c.ok = true ∧ d.ok = true) ∨ c.checkedAt ≤ d.checkedAt) :
    (k.record d.ip none [d]).Sound := by
  refine hs.record (by simp) (inTimeOrder_snoc hs.inOrder hle) (fun _ => ⟨hnone, fun c hc _ => ?_⟩) (fun h => absurd rfl h)
    (fun h => absurd rfl h)
  rw [List.mem_singleton.1 hc]
  exact hok

/-- A suppressed success: the last verdict was a success, so every failure of the IP had a witness already. -/
theorem Sound.record_suppressed {k : Knowledge} (hs : k.Sound) {ip : String} {old st : RecheckState}
    (hold : k.states ip = some old) (hok : old.lastOK = true) : (k.record ip (some st) []).Sound := by
  have hknown : ∀ t, k.Known ip t → (k.record ip (some st) []).Known ip t := by
    intro t hk
    refine ⟨st, Function.update_self _ _ _, Or.inr ?_⟩
    have hw := hk.witnessed hold hok
    unfold Witnessed at hw ⊢
    simpa only [Knowledge.record, List.append_nil] using hw
  refine hs.record (by simp) (by rw [List.append_nil]; exact hs.inOrder) nofun (fun _ r _ _ _ hk => hknown _ hk)
    (fun _ c hc hip hcok => ?_)
  rw [List.append_nil] at hc
  apply hknown
  rw [← hip]
  rcases hs.pendingKnown c hc hcok with h | h | ⟨st', h₁, h₂, -⟩
  · rw [hip, hold] at h
    cases h
  · exact h
  · rw [hip, hold] at h₁
    cases h₁
    rw [hok] at h₂
    cases h₂

/-! ## A target seeded -/

/-- The knowledge after one target was seeded against the newest pending checks. -/
def seed (k : Knowledge) (newest : String → Option IPCheck) (target : PoolTarget) : Knowledge :=
  { k with states := seedTarget newest k.states target, seeded := k.seeded ++ [target] }

/-- `newest` gives the newest pending check of each IP. -/
structure IsNewest (newest : String → Option IPCheck) (pending : List IPCheck) : Prop where
  mem : ∀ ip p, newest ip = some p → p ∈ pending ∧ p.ip = ip
  le : ∀ c ∈ pending, ∃ p, newest c.ip = some p ∧ c.checkedAt ≤ p.checkedAt

/-- Seeding keeps the witnesses. -/
theorem Witnessed.seed {k : Knowledge} {newest : String → Option IPCheck} {target : PoolTarget} {ip : String} {t : Time}
    (h : k.Witnessed ip t) : (k.seed newest target).Witnessed ip t :=
  h.imp (fun ⟨s, hs, h⟩ => ⟨s, List.mem_append_left _ hs, h⟩) id

/-- A target seen by the server at `lastSeen` is a witness against older failures. -/
theorem witnessed_seed (k : Knowledge) (newest : String → Option IPCheck) (target : PoolTarget) {t : Time}
    (h : t ≤ target.lastSeen) : (k.seed newest target).Witnessed target.ip t :=
  Or.inl ⟨target, by simp [Knowledge.seed], rfl, h⟩

/-- A known failure stays known when its IP is seeded. -/
theorem Known.seed {k : Knowledge} (hs : k.Sound) {newest : String → Option IPCheck} (hn : IsNewest newest k.pending)
    {target : PoolTarget} {f : IPCheck} (hf : f ∈ k.persisted) (hfok : f.ok = false) (hip : f.ip = target.ip)
    (hk : k.Known f.ip f.checkedAt) : (k.seed newest target).Known f.ip f.checkedAt := by
  obtain ⟨st, hst, hcase⟩ := hk
  refine ⟨seedPending (seedLastSeen (some st) target.lastSeen) (newest f.ip), ?_, ?_⟩
  · show seedTarget newest k.states target f.ip = _
    rw [hip, seedTarget_self, ← hip, hst]
  rcases hcase with ⟨hok, hat⟩ | hw
  · rcases seedLastSeen_cases st target.lastSeen with ⟨h₁, h₂⟩ | ⟨hlt, -, -⟩
    · rw [hok] at h₁
      generalize seedLastSeen (some st) target.lastSeen = mid at h₁ h₂ ⊢
      cases hp : newest f.ip with
      | none => exact Or.inl ⟨h₁, by simp only [seedPending, h₂]; exact hat⟩
      | some p =>
        obtain ⟨hpm, hpip⟩ := hn.mem _ _ hp
        rcases seedPending_cases mid p with ⟨-, h₃⟩ | ⟨h₃, h₄, h₅⟩
        · rw [h₃]
          exact Or.inl ⟨h₁, by rw [h₂]; exact hat⟩
        · have hlt : f.checkedAt < p.checkedAt := hat.trans_lt (h₂ ▸ h₃)
          by_cases hpok : p.ok = true
          · exact Or.inr (Or.inr (Or.inr (hs.lastSuccess_newer hf hfok hpm hpok hpip hlt)))
          · exact Or.inl ⟨by rw [h₄]; simpa using hpok, by rw [h₅]; exact hlt.le⟩
    · right
      rw [hip]
      exact witnessed_seed k newest target (hat.trans hlt.le)
  · exact Or.inr hw.seed

/-- Every pending failure of the seeded IP is known afterwards. -/
theorem Sound.seed_pending {k : Knowledge} (hs : k.Sound) {newest : String → Option IPCheck} (hn : IsNewest newest k.pending)
    {target : PoolTarget} {c : IPCheck} (hc : c ∈ k.pending) (hok : c.ok = false) (hip : c.ip = target.ip) :
    (k.seed newest target).Known c.ip c.checkedAt := by
  obtain ⟨p, hp, hcp⟩ := hn.le c hc
  obtain ⟨hpm, hpip⟩ := hn.mem _ _ hp
  have hself : ∀ st, k.states c.ip = st →
      (k.seed newest target).states c.ip = some (seedPending (seedLastSeen st target.lastSeen) (some p)) := by
    intro st hst
    show seedTarget newest k.states target c.ip = _
    rw [hip, seedTarget_self, ← hip, hst, hp]
  rcases hs.pendingKnown c hc hok with hnone | hk | ⟨st, hst, hfalse, hno⟩
  · -- no state: no success was persisted, so the newest pending check is a failure
    have hpok : p.ok = false := hs.untracked _ hnone p (hs.suffix.subset hpm) hpip
    refine ⟨_, hself none hnone, ?_⟩
    rcases seedPending_cases (seedLastSeen none target.lastSeen) p with ⟨h₁, -⟩ | ⟨-, h₂, h₃⟩
    · right
      rw [hip]
      exact witnessed_seed k newest target (hcp.trans h₁)
    · exact Or.inl ⟨h₂.trans hpok, by rw [h₃]; exact hcp⟩
  · exact hk.seed hs hn (hs.suffix.subset hc) hok hip
  · have hpok : p.ok = false := hno p (hs.suffix.subset hpm) hpip
    refine ⟨_, hself (some st) hst, ?_⟩
    rcases seedPending_cases (seedLastSeen (some st) target.lastSeen) p with ⟨h₁, h₂⟩ | ⟨-, h₂, h₃⟩
    · rcases seedLastSeen_cases st target.lastSeen with ⟨h₃, h₄⟩ | ⟨-, -, h₄⟩
      · exact Or.inl ⟨by rw [h₂, h₃]; exact hfalse, by rw [h₂]; exact hcp.trans h₁⟩
      · right
        rw [hip]
        exact witnessed_seed k newest target (hcp.trans (h₄ ▸ h₁))
    · exact Or.inl ⟨h₂.trans hpok, by rw [h₃]; exact hcp⟩

/-- Seeding keeps the states sound. -/
theorem Sound.seed {k : Knowledge} (hs : k.Sound) {newest : String → Option IPCheck} (hn : IsNewest newest k.pending)
    (target : PoolTarget) : (k.seed newest target).Sound where
  suffix := hs.suffix
  inOrder := hs.inOrder
  acceptedSource := hs.acceptedSource
  mergingSource := hs.mergingSource
  tracked := by
    intro s hsm
    show seedTarget newest k.states target s.ip ≠ none
    by_cases hip : s.ip = target.ip
    · rw [hip, seedTarget_self]
      exact Option.some_ne_none _
    · rw [seedTarget_of_ne _ _ hip]
      rcases List.mem_append.1 hsm with h | h
      · exact hs.tracked s h
      · exact absurd (by rw [List.mem_singleton.1 h]) hip
  untracked := by
    intro ip hst
    change seedTarget newest k.states target ip = none at hst
    by_cases hip : ip = target.ip
    · rw [hip, seedTarget_self] at hst
      cases hst
    · rw [seedTarget_of_ne _ _ hip] at hst
      exact hs.untracked ip hst
  acceptedKnown := by
    intro r hr hok
    refine (hs.acceptedKnown r hr hok).imp id fun hk => ?_
    by_cases hip : r.ip = target.ip
    · obtain ⟨f, hf, h₁, h₂, h₃⟩ := hs.acceptedSource r hr
      rw [← h₁, ← h₃] at hk ⊢
      exact hk.seed hs hn hf (h₂.trans hok) (h₁.trans hip)
    · exact hk.mono (seedTarget_of_ne _ _ hip) Witnessed.seed
  pendingKnown := by
    intro c hc hok
    by_cases hip : c.ip = target.ip
    · exact Or.inr (Or.inl (hs.seed_pending hn hc hok hip))
    · have hst : (k.seed newest target).states c.ip = k.states c.ip := seedTarget_of_ne _ _ hip
      rcases hs.pendingKnown c hc hok with h | h | ⟨st, h₁, h₂⟩
      · exact Or.inl (hst.trans h)
      · exact Or.inr (Or.inl (h.mono hst Witnessed.seed))
      · exact Or.inr (Or.inr ⟨st, hst.trans h₁, h₂⟩)

/-- Seeding a list of targets, one after the other. -/
theorem Sound.seeds {k : Knowledge} (hs : k.Sound) {newest : String → Option IPCheck} (hn : IsNewest newest k.pending)
    (targets : List PoolTarget) :
    Sound { k with states := targets.foldl (seedTarget newest) k.states, seeded := k.seeded ++ targets } := by
  induction targets generalizing k with
  | nil => simpa only [List.foldl_nil, List.append_nil] using hs
  | cons target targets ih =>
    have h := ih (hs.seed hn target) hn
    simpa only [List.foldl_cons, Knowledge.seed, List.append_assoc, List.singleton_append] using h

/-! ## A submission accepted and merged -/

/-- The rows of a submission that was just accepted are known through the checks they come from. -/
theorem Sound.accept {k : Knowledge} (hs : k.Sound) (hmerging : k.merging = []) {rows : List IPCheck}
    (hrows : ∀ r ∈ rows, ∃ c ∈ k.pending, Agrees c r) :
    Sound { k with accepted := k.accepted ++ rows, merging := rows } := by
  have hw : ∀ {ip t}, k.Known ip t → Known { k with accepted := k.accepted ++ rows, merging := rows } ip t := by
    intro ip t hk
    exact hk.mono rfl fun h => h.imp id (Or.imp (fun ⟨r, hr, h⟩ => ⟨r, List.mem_append_left _ hr, h⟩) id)
  constructor
  case suffix => exact hs.suffix
  case inOrder => exact hs.inOrder
  case tracked => exact hs.tracked
  case untracked => exact hs.untracked
  case mergingSource => exact fun r hr => ⟨List.mem_append_right _ hr, hrows r hr⟩
  case acceptedSource =>
    intro r hr
    rcases List.mem_append.1 hr with hr | hr
    · exact hs.acceptedSource r hr
    · obtain ⟨c, hc, ha⟩ := hrows r hr
      exact ⟨c, hs.suffix.subset hc, ha⟩
  case acceptedKnown =>
    intro r hr hok
    rcases List.mem_append.1 hr with hr | hr
    · rcases hs.acceptedKnown r hr hok with h | h
      · rw [hmerging] at h
        cases h
      · exact Or.inr (hw h)
    · exact Or.inl hr
  case pendingKnown =>
    intro c hc hok
    exact (hs.pendingKnown c hc hok).imp id (Or.imp hw id)

/-- The knowledge after the accepted rows of the batch in flight were merged, with what then is pending. -/
def merge (k : Knowledge) (rest : List IPCheck) : Knowledge :=
  { k with states := k.merging.foldl mergeCheck k.states, merging := [], pending := rest }

/-- A merge keeps the states that are there. -/
theorem exists_merge_state {k : Knowledge} {ip : String} (h : k.states ip ≠ none) (rest : List IPCheck) :
    ∃ st', (k.merge rest).states ip = some st' :=
  Option.ne_none_iff_exists'.1 fun hnone => h ((mergeCheck_foldl k.merging k.states ip).1.1 hnone).1

/-- A witness stays one: a last success that leaves the pending checks is accepted as a row of its time. -/
theorem Witnessed.merge {k : Knowledge} (hs : k.Sound) {batch rest : List IPCheck} (hpend : k.pending = batch ++ rest)
    (hlast : ∀ ip g, lastSuccess batch ip = some g → ∃ r ∈ k.merging, Agrees g r) {ip : String}
    {t : Time} (h : k.Witnessed ip t) :
    (k.merge rest).Witnessed ip t := by
  rcases h with h | h | ⟨g, hg, hle⟩
  · exact Or.inl h
  · exact Or.inr (Or.inl h)
  · rw [hpend, lastSuccess_append] at hg
    cases hr : lastSuccess rest ip with
    | some g' =>
      rw [hr, Option.some_or] at hg
      cases hg
      exact Or.inr (Or.inr ⟨_, hr, hle⟩)
    | none =>
      rw [hr, Option.none_or] at hg
      obtain ⟨r, hrm, h₁, h₂, h₃⟩ := hlast ip g hg
      obtain ⟨-, hgok, hgip⟩ := mem_of_lastSuccess hg
      exact Or.inr (Or.inl ⟨r, (hs.mergingSource r hrm).1, h₁.symm.trans hgip, h₂.symm.trans hgok, h₃ ▸ hle⟩)

/-- A failure remembered as the last verdict stays so, unless a newer accepted success replaces it. -/
theorem Sound.failure_merge {k : Knowledge} (hs : k.Sound) {rest : List IPCheck} {ip : String} {t : Time} {st st' : RecheckState}
    (hst : k.states ip = some st) (hfalse : st.lastOK = false) (hle : t ≤ st.lastResultAt)
    (hst' : (k.merge rest).states ip = some st') :
    st'.lastOK = false ∧ t ≤ st'.lastResultAt ∨ (k.merge rest).Witnessed ip t := by
  obtain ⟨-, h₂, h₃⟩ := (mergeCheck_foldl k.merging k.states ip).2 st' hst'
  simp only [mergeBase, hst, Option.getD_some] at h₂ h₃
  rcases h₃ with ⟨h₃, -⟩ | ⟨r, hr, hip, hok, hat⟩
  · exact Or.inl ⟨h₃.trans hfalse, hle.trans h₂⟩
  · cases hrok : r.ok with
    | true => exact Or.inr (Or.inr (Or.inl ⟨r, (hs.mergingSource r hr).1, hip, hrok, hat ▸ hle.trans h₂⟩))
    | false => exact Or.inl ⟨hok.trans hrok, hle.trans h₂⟩

/-- A merge keeps what is known. -/
theorem Known.merge {k : Knowledge} (hs : k.Sound) {batch rest : List IPCheck} (hpend : k.pending = batch ++ rest)
    (hlast : ∀ ip g, lastSuccess batch ip = some g → ∃ r ∈ k.merging, Agrees g r) {ip : String} {t : Time} (h : k.Known ip t) :
    (k.merge rest).Known ip t := by
  obtain ⟨st, hst, hcase⟩ := h
  obtain ⟨st', hst'⟩ := exists_merge_state (by rw [hst]; exact Option.some_ne_none _) rest
  refine ⟨st', hst', ?_⟩
  rcases hcase with ⟨hfalse, hle⟩ | hw
  · exact hs.failure_merge hst hfalse hle hst'
  · exact Or.inr (hw.merge hs hpend hlast)

/-- An IP with failures only keeps a failure as its verdict. -/
theorem Sound.verdict_merge {k : Knowledge} (hs : k.Sound) {rest : List IPCheck} {ip : String} {st' : RecheckState}
    (hno : NoSuccess k.persisted ip) (hbase : (mergeBase (k.states ip)).lastOK = false)
    (hst' : (k.merge rest).states ip = some st') :
    st'.lastOK = false := by
  obtain ⟨-, -, h₃⟩ := (mergeCheck_foldl k.merging k.states ip).2 st' hst'
  rcases h₃ with ⟨h₃, -⟩ | ⟨r, hr, hip, hok, -⟩
  · exact h₃.trans hbase
  · obtain ⟨-, c, hc, h₁, h₂, -⟩ := hs.mergingSource r hr
    rw [hok, ← h₂]
    exact hno c (hs.suffix.subset hc) (h₁.trans hip)

/-- A failure of the batch in flight is known once its row is merged. -/
theorem Sound.known_merged {k : Knowledge} (hs : k.Sound) {batch rest : List IPCheck} (hpend : k.pending = batch ++ rest)
    (hlast : ∀ ip g, lastSuccess batch ip = some g → ∃ r ∈ k.merging, Agrees g r) {r : IPCheck} (hm : r ∈ k.merging)
    (hok : r.ok = false) : (k.merge rest).Known r.ip r.checkedAt := by
  obtain ⟨-, c, hc, h₁, h₂, h₃⟩ := hs.mergingSource r hm
  have hfold := mergeCheck_foldl k.merging k.states r.ip
  have hne : (k.merge rest).states r.ip ≠ none := fun h => (hfold.1.1 h).2 r hm rfl
  obtain ⟨st', hst'⟩ := Option.ne_none_iff_exists'.1 hne
  have hle : r.checkedAt ≤ st'.lastResultAt := (hfold.2 st' hst').1 r hm rfl
  rcases hs.pendingKnown c hc (h₂.trans hok) with h | h | ⟨st, h₄, h₅, h₆⟩
  · rw [h₁] at h
    exact ⟨st', hst', Or.inl ⟨hs.verdict_merge (hs.untracked _ h) (by rw [h]; rfl) hst', hle⟩⟩
  · rw [← h₁, ← h₃]
    exact h.merge hs hpend hlast
  · rw [h₁] at h₄ h₆
    exact ⟨st', hst', Or.inl ⟨hs.verdict_merge h₆ (by rw [h₄]; exact h₅) hst', hle⟩⟩

/-- Merging the accepted rows of the batch in flight, which then is no longer pending. -/
theorem Sound.merge {k : Knowledge} (hs : k.Sound) {batch rest : List IPCheck} (hpend : k.pending = batch ++ rest)
    (hlast : ∀ ip g, lastSuccess batch ip = some g → ∃ r ∈ k.merging, Agrees g r) : (k.merge rest).Sound := by
  have hnone : ∀ {ip}, (k.merge rest).states ip = none → k.states ip = none := fun h =>
    ((mergeCheck_foldl k.merging k.states _).1.1 h).1
  constructor
  case suffix =>
    exact List.IsSuffix.trans ⟨batch, hpend.symm⟩ hs.suffix
  case inOrder => exact hs.inOrder
  case acceptedSource => exact hs.acceptedSource
  case mergingSource =>
    intro r hr
    cases hr
  case tracked =>
    intro s hsm h
    exact hs.tracked s hsm (hnone h)
  case untracked =>
    intro ip h
    exact hs.untracked ip (hnone h)
  case acceptedKnown =>
    intro r hr hok
    rcases hs.acceptedKnown r hr hok with hm | hk
    · exact Or.inr (hs.known_merged hpend hlast hm hok)
    · exact Or.inr (hk.merge hs hpend hlast)
  case pendingKnown =>
    intro c hc hok
    have hcp : c ∈ k.pending := by
      rw [hpend]
      exact List.mem_append_right _ hc
    rcases hs.pendingKnown c hcp hok with h | h | ⟨st, h₄, h₅, h₆⟩
    · cases hst' : (k.merge rest).states c.ip with
      | none => exact Or.inl rfl
      | some st' =>
        have hno := hs.untracked _ h
        exact Or.inr (Or.inr ⟨st', hst', hs.verdict_merge hno (by rw [h]; rfl) hst', hno⟩)
    · exact Or.inr (Or.inl (h.merge hs hpend hlast))
    · obtain ⟨st', hst'⟩ := exists_merge_state (by rw [h₄]; exact Option.some_ne_none _) rest
      exact Or.inr (Or.inr ⟨st', hst', hs.verdict_merge h₆ (by rw [h₄]; exact h₅) hst', h₆⟩)

end Knowledge

end Gwsdb.Scan
