import Gwsdb.Theorems.CacheExact

/-!
# Where a sync ends

One tab syncs while the server stands still. From a snapshot of an earlier version of the server the cache ends as
the server's pool. From a snapshot of a later version the server orders a reset, the tab fetches the full pool,
and `writeFullCache` refuses it.
-/

namespace Gwsdb.Web

open Keyed (Table)
open DeltaSync (Advance)
open Transition (run Meets)

/-! ## The statement -/

/-- The second server is the first after some changes of its pool. -/
inductive Later : Server → Server → Prop
  | refl (p : Server) : Later p p
  | publish {p q : Server} (puts : List IPRow) (evicts : List String) : Later p q → Later p (q.publish puts evicts)

/-- What a browser may come back with: the rows of an earlier version of the server under that version, or a snapshot of a
version the server does not have. -/
def Returning (p : Server) (c : Cache) (m : Metadata) : Prop :=
  (∃ q, Later q p ∧ m.version = q.version ∧ c.rows = q.rows.get?) ∨ p.version < m.version

/-- One tab, about to load the page. -/
def oneTab (p : Server) (c : Cache) : Site := ⟨p, fun _ => p, c, [.opened]⟩

/-- The tab goes on, the server does nothing. -/
def TabOnly (_ : Site) (a : Act) : Prop := ∃ display, a = .go 0 display

/-- The cache holds the server's pool under its version. -/
def Synced (p : Server) (c : Cache) : Prop := c.rows = p.rows.get? ∧ c.metadata.map (·.version) = some p.version

/-! ## The way of the tab -/

/-- Where a tab that read metadata `m` stands, and the cache there. -/
def OnTheWay (p : Server) (c : Cache) (m : Metadata) : Tab → Cache → Prop
  | .opened, c' => c' = c
  | .fetchChanges since, c' => c' = c ∧ since = m.version
  | .fetchFull, c' => c' = c ∧ p.resets m.version = true
  | .gotFull data, c' => c' = c ∧ p.resets m.version = true ∧ ∃ display, data = p.full display
  | .gotChanges data, c' => c' = c ∧ p.resets m.version = false ∧ ∃ display, data = p.changes m.version display
  | .done, c' =>
    (c' = c ∧ p.resets m.version = false ∧ p.version = m.version) ∨
      (p.resets m.version = true ∧ ∃ display, c' = writeFullCache c (p.full display)) ∨
        p.resets m.version = false ∧ ∃ display, c' = applyChanges c (p.changes m.version display)

/-- The site of one tab on its way. -/
def Underway (p : Server) (c : Cache) (m : Metadata) (s : Site) : Prop :=
  s.server = p ∧ ∃ t, s.tabs = [t] ∧ OnTheWay p c m t s.cache

/-- A step of the tab leads on along its way. -/
theorem onTheWay_goOn {p : Server} {c c' c'' : Cache} {m : Metadata} (hm : c.metadata = some m) {t t' : Tab} {display : Metadata}
    (h : OnTheWay p c m t c') (hgo : goOn p c' display t = some (t', c'')) : OnTheWay p c m t' c'' := by
  cases t with
  | opened =>
    obtain rfl : c' = c := h
    simp only [goOn, hm, Option.some.injEq, Prod.mk.injEq] at hgo
    obtain ⟨rfl, rfl⟩ := hgo
    exact ⟨rfl, rfl⟩
  | fetchFull =>
    obtain ⟨rfl, hreset⟩ := h
    simp only [goOn, Option.some.injEq, Prod.mk.injEq] at hgo
    obtain ⟨rfl, rfl⟩ := hgo
    exact ⟨rfl, hreset, display, rfl⟩
  | fetchChanges since =>
    obtain ⟨rfl, rfl⟩ := h
    simp only [goOn, answerChanges, Option.some.injEq, Prod.mk.injEq] at hgo
    obtain ⟨rfl, rfl⟩ := hgo
    cases hreset : p.resets m.version with
    | true =>
      simp only [if_true]
      exact ⟨rfl, hreset⟩
    | false =>
      simp only [Bool.false_eq_true, if_false]
      split
      · exact Or.inl ⟨rfl, hreset, ‹_›⟩
      · exact ⟨rfl, hreset, display, rfl⟩
  | gotFull data =>
    obtain ⟨rfl, hreset, display', rfl⟩ := h
    simp only [goOn, Option.some.injEq, Prod.mk.injEq] at hgo
    obtain ⟨rfl, rfl⟩ := hgo
    exact Or.inr (Or.inl ⟨hreset, display', rfl⟩)
  | gotChanges data =>
    obtain ⟨rfl, hreset, display', rfl⟩ := h
    simp only [goOn, Option.some.injEq, Prod.mk.injEq] at hgo
    obtain ⟨rfl, rfl⟩ := hgo
    exact Or.inr (Or.inr ⟨hreset, display', rfl⟩)
  | done => cases hgo

theorem underway_step {p : Server} {c : Cache} {m : Metadata} (hm : c.metadata = some m) (s : Site) (a : Act) (s' : Site)
    (h : nextSite s a = some s') (ha : TabOnly s a) (hs : Underway p c m s) : Underway p c m s' := by
  obtain ⟨display, rfl⟩ := ha
  obtain ⟨rfl, t, htabs, hway⟩ := hs
  simp only [nextSite, htabs, List.getElem?_cons_zero] at h
  cases hgo : goOn s.server s.cache display t with
  | none =>
    rw [hgo] at h
    cases h
  | some next =>
    obtain ⟨t', c'⟩ := next
    rw [hgo] at h
    cases h
    exact ⟨rfl, t', rfl, onTheWay_goOn hm hway hgo⟩

/-- A tab that has come to its end has found the cache current, replaced it, or merged the changes into it. -/
theorem sync_end {p : Server} {c : Cache} {m : Metadata} (hm : c.metadata = some m) {as : List Act} {s : Site}
    (hr : run nextSite (oneTab p c) as = some s) (ha : Meets nextSite TabOnly (oneTab p c) as) (hdone : s.tabs = [.done]) :
    OnTheWay p c m .done s.cache := by
  have hstart : Underway p c m (oneTab p c) := ⟨rfl, .opened, rfl, rfl⟩
  obtain ⟨-, t, htabs, hway⟩ := Transition.invariant_of_meets (underway_step hm) hr ha hstart
  rw [hdone] at htabs
  cases htabs
  exact hway

/-- A sync comes to its end within four steps. -/
theorem sync_ends (p : Server) {c : Cache} {m : Metadata} (hm : c.metadata = some m) (display : Metadata) :
    ∃ as s, run nextSite (oneTab p c) as = some s ∧ Meets nextSite TabOnly (oneTab p c) as ∧ s.tabs = [.done] := by
  have hgo : ∀ n s, Meets nextSite TabOnly s (List.replicate n (.go 0 display)) := by
    intro n
    induction n with
    | zero => exact fun _ => trivial
    | succ n ih => exact fun s => ⟨⟨display, rfl⟩, fun s' _ => ih s'⟩
  cases hreset : p.resets m.version with
  | true =>
    refine ⟨_, ⟨p, fun _ => p, writeFullCache c (p.full display), [.done]⟩, ?_, hgo 4 _, rfl⟩
    simp [run, nextSite, oneTab, goOn, answerChanges, hm, hreset]
  | false =>
    by_cases hsame : p.version = m.version
    · refine ⟨_, ⟨p, fun _ => p, c, [.done]⟩, ?_, hgo 2 _, rfl⟩
      simp [run, nextSite, oneTab, goOn, answerChanges, hm, hreset, hsame]
    · refine ⟨_, ⟨p, fun _ => p, applyChanges c (p.changes m.version display), [.done]⟩, ?_, hgo 3 _, rfl⟩
      simp [run, nextSite, oneTab, goOn, answerChanges, hm, hreset, hsame]

/-! ## What the commits lead to -/

theorem Later.advance {p q : Server} (h : Later p q) : Advance IPRow.revision p.snapshot q.snapshot := by
  induction h with
  | refl => exact Advance.refl _
  | publish puts evicts _ ih => exact ih.trans (Server.advance_publish _ puts evicts)

/-- The full pool replaces a snapshot of no later version. -/
theorem synced_writeFullCache {p : Server} {c : Cache} {m : Metadata} (hm : c.metadata = some m) (hle : m.version ≤ p.version)
    (display : Metadata) : Synced p (writeFullCache c (p.full display)) := by
  unfold writeFullCache
  simp only [hm]
  rw [if_neg (by simpa [Server.full] using hle)]
  exact ⟨p.storeOf_ips, rfl⟩

/-- The changes since an earlier version, merged into its snapshot, make the pool. A row of the old snapshot is
stamped no later than its version, the changes are stamped after it. -/
theorem synced_applyChanges {p q : Server} {c : Cache} {m : Metadata} (hm : c.metadata = some m) (hlater : Later q p)
    (hversion : m.version = q.version) (hrows : c.rows = q.rows.get?) (hreset : p.resets m.version = false) (display : Metadata) :
    Synced p (applyChanges c (p.changes m.version display)) := by
  have hadvance := hlater.advance
  have hle : q.version ≤ p.version := hadvance.version_le
  simp only [Server.resets, Bool.or_eq_false_iff, decide_eq_false_iff_not, not_lt] at hreset
  have hchanged := p.isChanged_changes m.version display
  constructor
  · show (p.changes m.version display).ips.foldl (applyRow c.rows) c.rows = p.rows.get?
    rw [applyRows_all]
    · rw [hrows]
      exact hadvance.overwrite_changed p.valid (by rw [hversion] at hreset; exact hreset.2) (le_of_eq hversion) hchanged
    · intro r hr o ho
      rw [hrows] at ho
      have hold := q.stamped _ o ho
      have hnew := ((hchanged r).1 hr).2
      omega
  · have hnew : m.version ≤ (p.changes m.version display).metadata.version := hreset.1
    unfold applyChanges
    simp only [hm]
    rw [if_pos hnew]
    rfl

/-- A snapshot of a later version stays: the reset the server orders is refused. -/
theorem writeFullCache_ahead {p : Server} {c : Cache} {m : Metadata} (hm : c.metadata = some m) (hlt : p.version < m.version)
    (display : Metadata) : writeFullCache c (p.full display) = c := by
  unfold writeFullCache
  simp only [hm]
  rw [if_pos]
  exact hlt

/-! ## Convergence -/

/-- A sync that ends has made the cache the server's pool exactly when the snapshot was of no later version than the server. -/
theorem sync_converges_iff {p : Server} {c : Cache} {m : Metadata} (hm : c.metadata = some m)
    (hc : Returning p c m) {as : List Act}
    {s : Site} (hr : run nextSite (oneTab p c) as = some s)
    (ha : Meets nextSite TabOnly (oneTab p c) as) (hdone : s.tabs = [.done]) :
    Synced p s.cache ↔ m.version ≤ p.version := by
  have hend := sync_end hm hr ha hdone
  constructor
  · intro hsynced
    by_contra hlt
    have hahead : p.version < m.version := by omega
    have hreset : p.resets m.version = true := by simp [Server.resets, hahead]
    rcases hend with ⟨-, hno, -⟩ | ⟨-, display, hcache⟩ | ⟨hno, -⟩
    · rw [hreset] at hno
      cases hno
    · rw [hcache, writeFullCache_ahead hm hahead] at hsynced
      have hversion := hsynced.2
      rw [hm, Option.map_some, Option.some.injEq] at hversion
      omega
    · rw [hreset] at hno
      cases hno
  · intro hle
    obtain ⟨q, hlater, hversion, hrows⟩ := hc.resolve_right (by omega)
    rcases hend with ⟨hcache, -, hsame⟩ | ⟨-, display, hcache⟩ | ⟨hreset, display, hcache⟩
    · have hq : q.rows.get? = p.rows.get? := hlater.advance.same (by show q.version = p.version; omega)
      rw [hcache]
      refine ⟨hrows.trans hq, ?_⟩
      rw [hm, hsame]
      rfl
    · rw [hcache]
      exact synced_writeFullCache hm hle display
    · rw [hcache]
      exact synced_applyChanges hm hlater hversion hrows hreset display

/-! ## A restored database -/

/-- A server with one row, at version 1. -/
def oneRow : Server := emptyServer.publish [sampleRow "8.8.8.8" 50] []

/-- A cache without rows under a version. -/
def cacheAt (version : Nat) : Cache := ⟨fun _ => none, some { sampleDisplay with version := version }⟩

theorem sync_converges_behind : ∃ s, run nextSite (oneTab oneRow (cacheAt 0)) (List.replicate 3 (.go 0 sampleDisplay)) = some s ∧
    (Synced oneRow s.cache ↔ 0 ≤ oneRow.version) := by
  have hmeets : Meets nextSite TabOnly (oneTab oneRow (cacheAt 0)) (List.replicate 3 (.go 0 sampleDisplay)) :=
    ⟨⟨_, rfl⟩, fun _ _ => ⟨⟨_, rfl⟩, fun _ _ => ⟨⟨_, rfl⟩, fun _ _ => trivial⟩⟩⟩
  have hreturning : Returning oneRow (cacheAt 0) { sampleDisplay with version := 0 } :=
    Or.inl ⟨emptyServer, Later.publish _ _ (Later.refl _), rfl, rfl⟩
  exact ⟨_, rfl, sync_converges_iff rfl hreturning rfl hmeets rfl⟩

/-- The server stands at version 1, the cache at version 5: the sync ends, and the cache is as it was. -/
theorem sync_stuck_ahead : oneRow.version < 5 ∧ ∃ s,
    run nextSite (oneTab oneRow (cacheAt 5)) (List.replicate 4 (.go 0 sampleDisplay)) = some s ∧ s.tabs = [.done] ∧
      s.cache.metadata.map (·.version) = some 5 ∧ ¬Synced oneRow s.cache := by
  refine ⟨by decide, _, rfl, rfl, rfl, ?_⟩
  rintro ⟨-, hversion⟩
  cases hversion

end Gwsdb.Web
