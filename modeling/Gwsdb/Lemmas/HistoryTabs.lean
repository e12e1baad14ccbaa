import Gwsdb.Web.History

/-!
# What happens to a tab

The events of a tab of the history section sorted by what they do: the first sync or a later one begins, a request goes on, data
is received, a snapshot is written or shown, a sync ends. Facts about all tabs follow from facts about one move of one tab.
-/

namespace Gwsdb.Web

open Gwsdb.Store
open Interleave (Prog)
open Keyed (Table)

/-- The snapshot a sync is about to write or to show. -/
def SyncStage.snapshot? : SyncStage → Option HistorySnapshot
  | .write s _ => some s
  | .fresh s => some s
  | _ => none

/-- An event that begins a sync. -/
def TabAct.begins : TabAct → Bool
  | .readCache _ => true
  | .openFails _ => true
  | .refresh _ => true
  | _ => false

namespace HistoryTab

variable {t t' : HistoryTab} {now j : Nat} {y z : Sync} {db : Database} {e e' : Edge} {store store' : SnapshotStore} {a : TabAct}

/-- After a sync began, a sync of the tab was there before or is the one that began. -/
theorem mem_sync {edgeHit : Bool} (h : z ∈ (t.sync now edgeHit).syncs) :
    z ∈ t.syncs ∨ z = t.begin now edgeHit := by
  rcases List.mem_append.1 h with h | h
  · exact Or.inl h
  · exact Or.inr (List.mem_singleton.1 h)

/-- After a step of a sync, a sync of the tab was there before or is the one that moved. -/
theorem mem_setSync {stage : SyncStage} (h : z ∈ (t.setSync j y stage).syncs) : z ∈ t.syncs ∨ z = { y with stage } :=
  List.mem_or_eq_of_mem_set h

/-- After a sync ended, the others are as before. -/
theorem mem_endSync (h : z ∈ (t.endSync j).syncs) : z ∈ t.syncs := List.mem_of_mem_eraseIdx h

/-- What a tab accepts leaves its syncs alone. -/
theorem accept_syncs (s : HistorySnapshot) : (t.accept s).syncs = t.syncs ∧ (t.accept s).ip = t.ip := by
  unfold accept
  split
  · exact ⟨rfl, rfl⟩
  · split <;> exact ⟨rfl, rfl⟩

/-- The data of an answer is dropped for a snapshot of its version or a later one, or becomes the snapshot. -/
theorem receive_cases (t : HistoryTab) (b : HistoryBody) :
    (∃ c, t.cache = some c ∧ b.version ≤ c.version ∧ t.receive b = .fresh c) ∨
      (∀ c, t.cache = some c → b.version ≠ c.version ∧ (b.reset = some true ∨ c.version < b.version)) ∧
        (t.receive b = .write ⟨b.version, b.checks⟩ (b.reset = some true) ∨ t.receive b = .fresh ⟨b.version, b.checks⟩) := by
  have hsave : t.save ⟨b.version, b.checks⟩ (b.reset = some true) = .write ⟨b.version, b.checks⟩ (b.reset = some true) ∨
      t.save ⟨b.version, b.checks⟩ (b.reset = some true) = .fresh ⟨b.version, b.checks⟩ := by
    unfold save
    split
    · exact Or.inl rfl
    · exact Or.inr rfl
  unfold receive
  cases hc : t.cache with
  | none => exact Or.inr ⟨nofun, hsave⟩
  | some c =>
    simp only
    split
    · rename_i heq
      exact Or.inl ⟨c, rfl, heq.le, rfl⟩
    rename_i hne
    split
    · rename_i holder
      exact Or.inl ⟨c, rfl, holder.2.le, rfl⟩
    rename_i hnewer
    refine Or.inr ⟨?_, hsave⟩
    intro c' hc'
    cases hc'
    refine ⟨hne, ?_⟩
    by_cases hreset : b.reset = some true
    · exact Or.inl hreset
    · refine Or.inr ?_
      have hge : ¬b.version < c.version := fun hlt => hnewer ⟨hreset, hlt⟩
      omega

/-- A tab that accepts a snapshot shows one of its version. -/
theorem accept_version (t : HistoryTab) (s : HistorySnapshot) :
    ∃ c, (t.accept s).cache = some c ∧ c.version = s.version := by
  unfold accept
  split
  · exact ⟨s, rfl, rfl⟩
  · rename_i c hc
    split
    · exact ⟨s, rfl, rfl⟩
    · rename_i hsame
      exact ⟨c, hc, (not_not.1 hsame).symm⟩

/-- The tab has the snapshot of the database, the one it had, or none, when a sync begins. -/
inductive Begins (store : SnapshotStore) (t : HistoryTab) : HistoryTab → Prop
  | found (c : HistorySnapshot) (h : store.get? (t.browser, t.ip) = some c) :
      Begins store t { t with boot := .ready, cache := some c, checks := c.checks }
  | without (boot : Boot) (db : Bool) : Begins store t { t with boot, db, cache := none }
  | as_is : Begins store t t

/-- The moves of a tab. -/
inductive Move (now : Nat) (db : Database) (e : Edge) (store : SnapshotStore) (t : HistoryTab) :
    TabAct → HistoryTab → Edge → SnapshotStore → Prop
  | opened : Move now db e store t .openCache { t with boot := .reading, db := true } e store
  | begun {a : TabAct} (ha : a.begins = true) {t₀ : HistoryTab} (h : Begins store t t₀) (edgeHit : Bool) :
      Move now db e store t a (t₀.sync now edgeHit) e store
  | called (j : Nat) (y : Sync) (c : HistoryCall) (k : HistoryReply c → HistoryProgram) (hy : t.syncs[j]? = some y)
      (hs : y.stage = .fetch (.call c k)) :
      Move now db e store t (.go j) (t.setSync j y (.fetch (k (answerHistory db c e).1))) (answerHistory db c e).2 store
  | answered (j : Nat) (y : Sync) (b : HistoryBody) (hy : t.syncs[j]? = some y) (hs : y.stage = .fetch (.ret (.body b))) :
      Move now db e store t (.go j) (t.setSync j y (.data b)) e store
  | received (j : Nat) (y : Sync) (b : HistoryBody) (hy : t.syncs[j]? = some y) (hs : y.stage = .data b) :
      Move now db e store t (.go j) (t.setSync j y (t.receive b)) e store
  | wrote (j : Nat) (y : Sync) (s : HistorySnapshot) (force : Bool) (hy : t.syncs[j]? = some y) (hs : y.stage = .write s force) :
      Move now db e store t (.go j) (t.setSync j y (.fresh (writeSnapshot store (t.browser, t.ip) s force).1)) e
        (writeSnapshot store (t.browser, t.ip) s force).2
  | accepted (j : Nat) (y : Sync) (s : HistorySnapshot) (hy : t.syncs[j]? = some y) (hs : y.stage = .fresh s) :
      Move now db e store t (.go j) ((t.accept s).endSync j) e store
  | ended {a : TabAct} (j : Nat) (hj : j < t.syncs.length) : Move now db e store t a (t.endSync j) e store

/-- What happens to a tab is one of the moves. -/
theorem next_move (h : t.next now db e store a = some (t', e', store')) : Move now db e store t a t' e' store' := by
  cases a with
  | openCache =>
    simp only [next] at h
    split at h
    · cases h
      exact .opened
    · cases h
  | readCache edgeHit =>
    simp only [next] at h
    split at h
    · cases h
      refine .begun rfl ?_ edgeHit
      cases hfound : store.get? (t.browser, t.ip) with
      | none => exact .without .ready t.db
      | some c => exact .found c hfound
    · cases h
  | openFails edgeHit =>
    simp only [next] at h
    split at h
    · cases h
    · cases h
      exact .begun rfl (.without .ready false) edgeHit
  | refresh edgeHit =>
    cases h
    exact .begun rfl .as_is edgeHit
  | go j =>
    obtain ⟨y, hget, hgo⟩ := Option.map_eq_some_iff.1 h
    unfold goSync at hgo
    split at hgo
    · rename_i c k hs
      cases hgo
      exact .called j y c k hget hs
    · rename_i b hs
      cases hgo
      exact .answered j y b hget hs
    · cases hgo
      exact .ended j (List.getElem?_eq_some_iff.1 hget).1
    · rename_i b hs
      cases hgo
      exact .received j y b hget hs
    · rename_i s force hs
      cases hgo
      exact .wrote j y s force hget hs
    · rename_i s hs
      cases hgo
      exact .accepted j y s hget hs
  | fail j =>
    simp only [next] at h
    split at h
    · rename_i hj
      cases h
      exact .ended j hj
    · cases h

/-- A tab begins a sync for its own IP. -/
theorem Begins.same {t₀ : HistoryTab} (h : Begins store t t₀) : t₀.ip = t.ip ∧ t₀.syncs = t.syncs := by
  cases h <;> exact ⟨rfl, rfl⟩

/-- A move leaves the IP of a tab. -/
theorem Move.ip_eq (h : Move now db e store t a t' e' store') : t'.ip = t.ip := by
  cases h with
  | begun ha hbegins edgeHit => exact hbegins.same.1
  | accepted j y s hy hs => exact (accept_syncs s).2
  | _ => rfl

end HistoryTab

variable {db : Nat → Database} {w w' : HistoryWorld} {a : HistoryAct}

/-- What happens to a tab in a step. -/
theorem nextHistory_tab {i : Nat} {b : TabAct} (h : nextHistory db w (.tab i b) = some w') :
    ∃ t t', w.tabs[i]? = some t ∧ t.next w.now (db w.now) w.edge w.store b = some (t', w'.edge, w'.store) ∧
      w'.tabs = w.tabs.set i t' ∧ w'.now = w.now := by
  obtain ⟨t, hget, h⟩ := Option.bind_eq_some_iff.1 h
  obtain ⟨⟨t', edge, store⟩, hnext, h⟩ := Option.bind_eq_some_iff.1 h
  cases h
  exact ⟨t, t', hget, hnext, rfl, rfl⟩

/-- Time does not go back. -/
theorem nextHistory_now (h : nextHistory db w a = some w') : w.now ≤ w'.now := by
  cases a with
  | tab i b =>
    obtain ⟨t, t', -, -, -, hnow⟩ := nextHistory_tab h
    exact hnow.symm.le
  | settle k =>
    obtain ⟨put, -, rfl⟩ := Option.map_eq_some_iff.1 h
    exact le_refl _
  | tick => cases h; exact Nat.le_succ _
  | openTab browser ip => cases h; exact le_refl _
  | drop key => cases h; exact le_refl _

/-- What holds of the tabs, of a new one and of one that moves, holds of the tabs after a step. -/
theorem nextHistory_tabs {P : HistoryTab → Prop} (h : nextHistory db w a = some w') (hold : ∀ t ∈ w.tabs, P t)
    (hopen : ∀ browser ip, P ⟨browser, ip, .opening, false, none, [], []⟩)
    (hmove : ∀ i b t t', a = .tab i b → w.tabs[i]? = some t → t.Move w.now (db w.now) w.edge w.store b t' w'.edge w'.store →
      w'.now = w.now → P t') : ∀ t ∈ w'.tabs, P t := by
  cases a with
  | tab i b =>
    obtain ⟨t, t', hget, hnext, htabs, hnow⟩ := nextHistory_tab h
    rw [htabs]
    intro t₁ ht₁
    rcases List.mem_or_eq_of_mem_set ht₁ with ht₁ | rfl
    · exact hold t₁ ht₁
    · exact hmove i b t t₁ rfl hget (HistoryTab.next_move hnext) hnow
  | openTab browser ip =>
    cases h
    intro t ht
    rcases List.mem_append.1 ht with ht | ht
    · exact hold t ht
    · rw [List.mem_singleton.1 ht]
      exact hopen browser ip
  | settle k =>
    obtain ⟨put, -, rfl⟩ := Option.map_eq_some_iff.1 h
    exact hold
  | tick => cases h; exact hold
  | drop key => cases h; exact hold

end Gwsdb.Web
