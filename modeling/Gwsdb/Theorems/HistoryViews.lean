import Gwsdb.Theorems.HistoryAnswers

/-!
# What the tabs show of a history

A tab builds its snapshot on the answers it receives, on its browser's database and on what other tabs wrote there. It shows a
history the server has had, except where it takes up an answer without checks that is for no version it holds. Tabs with one sync
at a time never do, and where versions only grow, a sync that ends well shows a history the server has had since the sync began.
-/

namespace Gwsdb.Web

open Gwsdb.Store
open Interleave (Run)
open Keyed (Table)
open Signal (SeenIn)
open Transition (run Meets)

variable {r : Run start serve}

/-! ## The statement -/

/-- The snapshot is a history the server has had up to a moment, under its version. -/
def Viewed (r : Run start serve) (n : Nat) (ip : String) (s : HistorySnapshot) : Prop :=
  ∃ key, normalize ip = some key ∧ SeenIn (versionAt r key) (historyAt r key) 0 n s.version (.ok s.checks)

/-- A snapshot of a run is one of it later. -/
theorem Viewed.mono {n n' : Nat} {ip : String} {s : HistorySnapshot} (hn : n ≤ n') (h : Viewed r n ip s) : Viewed r n' ip s := by
  obtain ⟨key, hkey, hseen⟩ := h
  exact ⟨key, hkey, hseen.mono (le_refl 0) hn⟩

/-- The browsers' databases hold histories the server has had. -/
def StoreExact (r : Run start serve) (n : Nat) (store : SnapshotStore) : Prop :=
  ∀ browser ip s, store.get? (browser, ip) = some s → Viewed r n ip s

/-- A tab shows the snapshot it has, and that one and those on their way to it are histories the server has had. -/
structure HistoryTab.Exact (r : Run start serve) (n : Nat) (t : HistoryTab) : Prop where
  shown : ∀ c, t.cache = some c → t.checks = c.checks ∧ Viewed r n t.ip c
  coming : ∀ y ∈ t.syncs, ∀ s, y.stage.snapshot? = some s → Viewed r n t.ip s

/-- All tabs and databases hold histories the server has had. -/
structure HistoryWorld.Exact (r : Run start serve) (w : HistoryWorld) : Prop where
  store : StoreExact r w.now w.store
  tabs : ∀ t ∈ w.tabs, t.Exact r w.now

/-- An answer without checks is received by a tab that has a snapshot of its version or a later one; or the version is
the one of an empty history. -/
def HistoryTab.ReceivesKnown (t : HistoryTab) (a : TabAct) : Prop :=
  ∀ j began since b, a = .go j → t.syncs[j]? = some ⟨began, since, .data b⟩ → b.reset = none →
    b.version = 0 ∨ ∃ c, t.cache = some c ∧ b.version ≤ c.version

/-- The same of a step. -/
def ReceivesKnown (w : HistoryWorld) (a : HistoryAct) : Prop :=
  ∀ i b t, a = .tab i b → w.tabs[i]? = some t → t.ReceivesKnown b

/-! ## What a move keeps -/

/-- An exact tab stays exact. -/
theorem HistoryTab.Exact.mono {n n' : Nat} {t : HistoryTab} (hn : n ≤ n') (h : t.Exact r n) : t.Exact r n' where
  shown c hc := ⟨(h.shown c hc).1, (h.shown c hc).2.mono hn⟩
  coming y hy s hs := (h.coming y hy s hs).mono hn

/-- A tab with another stage of one sync holds histories the server has had, if what that stage brings is one. -/
theorem HistoryTab.Exact.setSync {n j : Nat} {t : HistoryTab} {y : Sync} {stage : SyncStage} (h : t.Exact r n)
    (hstage : ∀ s, stage.snapshot? = some s → Viewed r n t.ip s) : (t.setSync j y stage).Exact r n where
  shown := h.shown
  coming z hz s hs := by
    rcases HistoryTab.mem_setSync hz with hz | rfl
    · exact h.coming z hz s hs
    · exact hstage s hs

/-- So does a tab whose sync ends. -/
theorem HistoryTab.Exact.endSync {n j : Nat} {t : HistoryTab} (h : t.Exact r n) : (t.endSync j).Exact r n where
  shown := h.shown
  coming z hz := h.coming z (HistoryTab.mem_endSync hz)

/-- A sync begins with what the store holds. -/
theorem HistoryTab.Exact.begin {now : Nat} {t t₀ : HistoryTab} {store : SnapshotStore} {edgeHit : Bool} (h : t.Exact r now)
    (hstore : StoreExact r now store) (hbegins : HistoryTab.Begins store t t₀) : (t₀.sync now edgeHit).Exact r now where
  shown c hc := by
    cases hbegins with
    | found c' hfound =>
      cases hc
      exact ⟨rfl, hstore _ _ c hfound⟩
    | without boot db => cases hc
    | as_is => exact h.shown c hc
  coming z hz s hs := by
    have hip : (t₀.sync now edgeHit).ip = t.ip := hbegins.same.1
    rw [hip]
    rcases HistoryTab.mem_sync hz with hz | rfl
    · exact h.coming z (hbegins.same.2 ▸ hz) s hs
    · cases hs

/-- An exact tab takes a snapshot of the run. -/
theorem HistoryTab.Exact.accept {n : Nat} {t : HistoryTab} {s : HistorySnapshot} (h : t.Exact r n) (hs : Viewed r n t.ip s) :
    (t.accept s).Exact r n := by
  refine ⟨?_, fun z hz => ?_⟩
  · rw [(HistoryTab.accept_syncs s).2]
    intro c hc
    unfold HistoryTab.accept at hc ⊢
    cases hcache : t.cache with
    | none =>
      simp only [hcache, Option.some.injEq] at hc ⊢
      subst hc
      exact ⟨rfl, hs⟩
    | some c' =>
      simp only [hcache] at hc ⊢
      split at hc
      · rename_i hne
        simp only [Option.some.injEq] at hc
        subst hc
        rw [if_pos hne]
        exact ⟨rfl, hs⟩
      · rename_i hne
        rw [if_neg hne]
        exact h.shown c hc
  · rw [(HistoryTab.accept_syncs s).1] at hz
    rw [(HistoryTab.accept_syncs s).2]
    exact h.coming z hz

/-- The transaction saves a history the server has had, and leaves such ones. -/
theorem StoreExact.write {n : Nat} {ip : String} {store : SnapshotStore} (h : StoreExact r n store)
    (browser : Nat) {s : HistorySnapshot}
    (hs : Viewed r n ip s) (force : Bool) : Viewed r n ip (writeSnapshot store (browser, ip) s force).1 ∧
      StoreExact r n (writeSnapshot store (browser, ip) s force).2 := by
  have hput : StoreExact r n (store.put (browser, ip) s) := by
    intro browser' ip' s' hs'
    rw [Table.get?_put] at hs'
    split at hs'
    · rename_i heq
      cases heq
      cases hs'
      exact hs
    · exact h browser' ip' s' hs'
  unfold writeSnapshot
  split
  · exact ⟨hs, hput⟩
  · rename_i current hcurrent
    split
    · exact ⟨h browser ip current hcurrent, h⟩
    · exact ⟨hs, hput⟩

/-- What a tab receives are histories the server has had, if it receives known ones. -/
theorem viewed_receive (hids : ∀ n, (r.state n).db.checks.PositiveIds) {n began : Nat} {t : HistoryTab} (h : t.Exact r n)
    {b : HistoryBody} {key : String}
    {since : Option Nat} (hkey : normalize t.ip = some key) (hanswer : AnswerOf r began n key since b)
    (hknown : b.reset = none → b.version = 0 ∨ ∃ c, t.cache = some c ∧ b.version ≤ c.version) :
    ∀ s, (t.receive b).snapshot? = some s → Viewed r n t.ip s := by
  intro s hs
  rcases t.receive_cases b with ⟨c, hc, -, heq⟩ | ⟨hnewer, hnew⟩
  · rw [heq] at hs
    cases hs
    exact (h.shown _ hc).2
  have hs' : s = ⟨b.version, b.checks⟩ := by
    rcases hnew with heq | heq <;> rw [heq] at hs <;> cases hs <;> rfl
  subst hs'
  refine ⟨key, hkey, ?_⟩
  unfold AnswerOf at hanswer
  split at hanswer
  · rename_i hreset
    obtain ⟨hnil, -, m, -, hn, hv⟩ := hanswer
    rcases hknown hreset with hzero | ⟨c, hc, hle⟩
    · refine ⟨m, Nat.zero_le m, hn, hv, ?_⟩
      rw [hnil]
      exact (historyChecks_eq_nil_iff (hids m) key).2 (hv.trans hzero)
    · rcases (hnewer c hc).2 with hr | hlt
      · rw [hreset] at hr
        cases hr
      · omega
  · exact hanswer.mono (Nat.zero_le began) (le_refl n)

/-- A move keeps tabs and databases to histories the server has had. -/
theorem HistoryTab.Move.exact (hids : ∀ n, (r.state n).db.checks.PositiveIds) {now : Nat} {t t' : HistoryTab} {e e' : Edge}
    {store store' : SnapshotStore} {a : TabAct} (h : t.Move now (databaseAt r now) e store a t' e' store')
    (hserved : ∀ y ∈ t.syncs, y.Served r now t.ip) (hknown : t.ReceivesKnown a) (hstore : StoreExact r now store)
    (ht : t.Exact r now) : StoreExact r now store' ∧ t'.Exact r now := by
  cases h with
  | opened => exact ⟨hstore, ht.shown, ht.coming⟩
  | begun _ hbegins edgeHit => exact ⟨hstore, ht.begin hstore hbegins⟩
  | called j y c k hy hs => exact ⟨hstore, ht.setSync nofun⟩
  | answered j y b hy hs => exact ⟨hstore, ht.setSync nofun⟩
  | received j y b hy hs =>
    obtain ⟨-, hstage⟩ := hserved y (List.mem_of_getElem? hy)
    simp only [hs] at hstage
    obtain ⟨key, hkey, hanswer⟩ := hstage
    refine ⟨hstore, ht.setSync (viewed_receive hids ht hkey hanswer fun hreset => ?_)⟩
    refine hknown j y.began y.since b rfl ?_ hreset
    rw [hy, ← hs]
  | wrote j y s force hy hs =>
    have hview : Viewed r now t.ip s := ht.coming y (List.mem_of_getElem? hy) s (by rw [hs]; rfl)
    obtain ⟨hsaved, hstore'⟩ := hstore.write t.browser hview force
    refine ⟨hstore', ht.setSync fun s' hs' => ?_⟩
    cases hs'
    exact hsaved
  | accepted j y s hy hs => exact ⟨hstore, (ht.accept (ht.coming y (List.mem_of_getElem? hy) s (by rw [hs]; rfl))).endSync⟩
  | ended j hj => exact ⟨hstore, ht.endSync⟩

/-- Every step that receives known answers keeps the world exact. -/
theorem WorldServed.next_exact (hids : ∀ n, (r.state n).db.checks.PositiveIds) {w w' : HistoryWorld} {a : HistoryAct}
    (h : nextHistory (databaseAt r) w a = some w') (hknown : ReceivesKnown w a) (hserved : WorldServed r w) (hw : w.Exact r) :
    w'.Exact r := by
  have hmoved : ∀ i b t t', a = .tab i b → w.tabs[i]? = some t →
      t.Move w.now (databaseAt r w.now) w.edge w.store b t' w'.edge w'.store →
          StoreExact r w.now w'.store ∧ t'.Exact r w.now := by
    intro i b t t' ha hget hmove
    have ht := List.mem_of_getElem? hget
    exact hmove.exact hids (hserved.syncs t ht) (hknown i b t ha hget) hw.store (hw.tabs t ht)
  refine ⟨?_, nextHistory_tabs h ?_ (fun _ _ => ⟨nofun, nofun⟩) ?_⟩
  · cases a with
    | tab i b =>
      obtain ⟨t, t', hget, hnext, -, hnow⟩ := nextHistory_tab h
      rw [hnow]
      exact (hmoved i b t t' rfl hget (HistoryTab.next_move hnext)).1
    | settle k =>
      obtain ⟨put, -, rfl⟩ := Option.map_eq_some_iff.1 h
      exact hw.store
    | tick =>
      cases h
      exact fun browser ip s hs => (hw.store browser ip s hs).mono (Nat.le_succ _)
    | openTab browser ip =>
      cases h
      exact hw.store
    | drop key =>
      cases h
      exact hw.store
  · exact fun t ht => (hw.tabs t ht).mono (nextHistory_now h)
  · intro i b t t' ha hget hmove hnow
    rw [hnow]
    exact (hmoved i b t t' ha hget hmove).2

/-- A run whose steps receive known answers keeps requests served and the world exact. -/
theorem worldExact_of_meets (hlast : KeepsLastIdThroughout r) (hids : (r.state 0).db.checks.PositiveIds) {acts : List HistoryAct}
    {w : HistoryWorld} (hrun : run (nextHistory (databaseAt r)) .empty acts = some w)
    (hknown : Meets (nextHistory (databaseAt r)) ReceivesKnown .empty acts) : WorldServed r w ∧ w.Exact r := by
  refine Transition.invariant_of_meets (I := fun w => WorldServed r w ∧ w.Exact r) ?_ hrun hknown
    ⟨worldServed_empty, nofun, nofun⟩
  rintro w a w' h ha ⟨hserved, hw⟩
  exact ⟨hserved.next (history_signal r hlast) h, hserved.next_exact (positiveIds_later r hids) h ha hw⟩

/-- A visit across a prune goes on: its answer becomes the snapshot, which is written to the browser's database. -/
theorem run_visitAcross_written {m k v : Nat} {checks : List HistoryCheck}
    (h : run (nextHistory (databaseAt r)) .empty (visitAcross m k) = some (visitedWorld m k v checks)) :
    run (nextHistory (databaseAt r)) .empty (visitAcross m k ++ [.tab 0 (.go 0), .tab 0 (.go 0)]) =
      some { visitedWorld m k v checks with
        store := Table.empty.put (0, "8.8.8.8") ⟨v, checks⟩
        tabs := [⟨0, "8.8.8.8", .ready, true, none, [], [⟨m, none, .fresh ⟨v, checks⟩⟩]⟩] } :=
  Transition.run_append.2 ⟨_, h, rfl⟩

/-- The version a client sends is read as it is, if at all. -/
theorem readSince_toString {n v : Nat} (h : readSince (toString n) = some v) : v = n := by
  have htext : (toString n).toList = Nat.toDigits 10 n := String.toList_ofList
  have hdigits : ∀ c ∈ Nat.toDigits 10 n, JsNumber.isDigit 10 c = true := by
    intro c hc
    obtain ⟨d, hd, rfl⟩ := Digits.isDigit_of_mem_toDigits (by decide) c hc
    exact JsNumber.isDigit_iff.2 ⟨d, Digits.digitValue_digitChar (by omega), hd⟩
  unfold readSince at h
  rw [htext, JsNumber.integer_digits Nat.toDigits_ne_nil hdigits, Digits.value_toDigits (by decide)
    (by decide), Option.bind_some] at h
  split at h
  · cases h
    rfl
  · cases h

/-- A sync of a tab begins when none of its syncs is under way. -/
def BeginsAlone (w : HistoryWorld) (a : HistoryAct) : Prop :=
  ∀ i b t, a = .tab i b → w.tabs[i]? = some t → b.begins = true → t.syncs = []

/-- A tab has one sync at most, which asked for what is newer than the tab's snapshot. -/
structure HistoryTab.Alone (t : HistoryTab) : Prop where
  one : t.syncs.length ≤ 1
  asked : ∀ y ∈ t.syncs, y.stage.snapshot? = none → y.since = t.cache.map fun c => toString c.version

/-- A tab with one sync at a time receives answers about what it holds. -/
theorem HistoryTab.Alone.receivesKnown {n : Nat} {t : HistoryTab} (h : t.Alone) (hserved : ∀ y ∈ t.syncs, y.Served r n t.ip)
    (a : TabAct) : t.ReceivesKnown a := by
  rintro j began since b rfl hget hreset
  have hy := List.mem_of_getElem? hget
  have hsince : since = t.cache.map fun c => toString c.version := h.asked _ hy rfl
  obtain ⟨-, key, -, hanswer⟩ := hserved _ hy
  unfold AnswerOf at hanswer
  rw [hreset] at hanswer
  obtain ⟨-, hsent, -⟩ := hanswer
  rw [hsince] at hsent
  cases hc : t.cache with
  | none =>
    rw [hc] at hsent
    cases hsent
  | some c =>
    rw [hc] at hsent
    exact Or.inr ⟨c, rfl, (readSince_toString hsent).le⟩

/-- A sync that begins alone asks for what is newer than the snapshot. -/
theorem HistoryTab.alone_sync {t : HistoryTab} (h : t.syncs = []) (now : Nat) (edgeHit : Bool) : (t.sync now edgeHit).Alone := by
  have hsyncs : (t.sync now edgeHit).syncs = [t.begin now edgeHit] := by
    unfold HistoryTab.sync
    rw [h]
    rfl
  refine ⟨by rw [hsyncs]; exact le_refl 1, fun y hy _ => ?_⟩
  rw [hsyncs] at hy
  rw [List.mem_singleton.1 hy]
  rfl

/-- Going on with a sync leaves the tab with one. -/
theorem HistoryTab.Alone.setSync {t : HistoryTab} (h : t.Alone) {j : Nat} {y : Sync}
    (hget : t.syncs[j]? = some y) {stage : SyncStage}
    (hstage : stage.snapshot? = none → y.stage.snapshot? = none) : (t.setSync j y stage).Alone where
  one := by
    show (t.syncs.set j _).length ≤ 1
    rw [List.length_set]
    exact h.one
  asked z hz hs := by
    rcases HistoryTab.mem_setSync hz with hz | rfl
    · exact h.asked z hz hs
    · exact h.asked y (List.mem_of_getElem? hget) (hstage hs)

/-- The sync of a tab ends, whatever the snapshot is then. -/
theorem HistoryTab.alone_endSync {t : HistoryTab} (h : t.syncs.length ≤ 1) {j : Nat} (hj : j < t.syncs.length) :
    (t.endSync j).Alone := by
  have hnil : (t.endSync j).syncs = [] := by
    refine List.length_eq_zero_iff.1 ?_
    show (t.syncs.eraseIdx j).length = 0
    rw [List.length_eraseIdx_of_lt hj]
    omega
  refine ⟨by rw [hnil]; exact Nat.zero_le 1, fun y hy => ?_⟩
  rw [hnil] at hy
  cases hy

/-- So does every move that begins none beside another. -/
theorem HistoryTab.Move.alone {now : Nat} {db : Database} {t t' : HistoryTab} {e e' : Edge} {store store' : SnapshotStore}
    {a : TabAct} (h : t.Move now db e store a t' e' store') (halone : a.begins = true → t.syncs = [])
        (ht : t.Alone) : t'.Alone := by
  cases h with
  | opened => exact ⟨ht.one, ht.asked⟩
  | begun ha hbegins edgeHit => exact HistoryTab.alone_sync (hbegins.same.2.trans (halone ha)) now edgeHit
  | called j y c k hy hs => exact ht.setSync hy fun _ => by rw [hs]; rfl
  | answered j y b hy hs => exact ht.setSync hy fun _ => by rw [hs]; rfl
  | received j y b hy hs => exact ht.setSync hy fun _ => by rw [hs]; rfl
  | wrote j y s force hy hs => exact ht.setSync hy nofun
  | accepted j y s hy hs =>
    have hsyncs : (t.accept s).syncs = t.syncs := (HistoryTab.accept_syncs s).1
    exact HistoryTab.alone_endSync (by rw [hsyncs]; exact ht.one) (by rw [hsyncs]; exact (List.getElem?_eq_some_iff.1 hy).1)
  | ended j hj => exact HistoryTab.alone_endSync ht.one hj

/-- Tabs that begin a sync only when none is under way receive known answers. -/
theorem meets_receivesKnown (hlast : KeepsLastIdThroughout r) {acts : List HistoryAct}
    (halone : Meets (nextHistory (databaseAt r)) BeginsAlone .empty acts) :
    Meets (nextHistory (databaseAt r)) ReceivesKnown .empty acts := by
  refine halone.of_invariant (I := fun w => WorldServed r w ∧ ∀ t ∈ w.tabs, t.Alone) ?_ ?_ ⟨worldServed_empty, nofun⟩
  · rintro w a w' h ha ⟨hserved, hall⟩
    exact ⟨hserved.next (history_signal r hlast) h,
        nextHistory_tabs h hall (fun _ _ => ⟨Nat.zero_le 1, nofun⟩) fun i b t t' hb hget hmove _ =>
      hmove.alone (ha i b t hb hget) (hall t (List.mem_of_getElem? hget))⟩
  · rintro w a ⟨hserved, hall⟩ - i b t - hget
    have ht := List.mem_of_getElem? hget
    exact (hall t ht).receivesKnown (hserved.syncs t ht) b

/-- The tab of the visit begins its only sync alone. -/
theorem visitAcross_alone (m k : Nat) : Meets (nextHistory (databaseAt r)) BeginsAlone .empty
    (visitAcross m k ++ [.tab 0 (.go 0), .tab 0 (.go 0)]) := by
  have hticks : ∀ j w, Meets (nextHistory (databaseAt r)) BeginsAlone w (List.replicate j .tick) := by
    intro j w
    refine (Meets.of_forall (C := fun a => a = .tick) (fun a ha => List.eq_of_mem_replicate ha) w).of_invariant
      (I := fun _ => True)
      (fun _ _ _ _ _ _ => trivial) ?_ trivial
    rintro w a - rfl i b t h
    cases h
  have hgo : ∀ j w, Meets (nextHistory (databaseAt r)) BeginsAlone w (List.replicate j (.tab 0 (.go 0))) := by
    intro j w
    refine (Meets.of_forall (C := fun a => a = .tab 0 (.go 0)) (fun a ha => List.eq_of_mem_replicate ha) w).of_invariant
      (I := fun _ => True) (fun _ _ _ _ _ _ => trivial) ?_ trivial
    rintro w a - rfl i b t h - hb
    cases h
    cases hb
  have hopen : ∀ w : HistoryWorld, w.tabs = [] → Meets (nextHistory (databaseAt r)) BeginsAlone w
      [.openTab 0 "8.8.8.8", .tab 0 .openCache, .tab 0 (.readCache true), .tab 0 (.go 0)] := by
    rintro ⟨now, edge, store, _⟩ rfl
    refine Meets.cons rfl nofun (Meets.cons rfl ?_ (Meets.cons rfl ?_ (hgo 1 _)))
    · intro i b t h _ hb
      cases h
      cases hb
    · intro i b t h hget _
      cases h
      cases hget
      rfl
  unfold visitAcross
  refine (((((hticks m _).append fun w hw => hopen w ?_).append fun _ _ => hticks k _).append fun _ _ =>
    hgo 5 _).append fun _ _ => hgo 2 _)
  rw [run_ticks] at hw
  cases hw
  rfl

/-- A snapshot on its way to a tab has a version the history did not go beyond before the sync began. -/
def HistoryTab.Fresh (r : Run start serve) (t : HistoryTab) : Prop :=
  ∀ y ∈ t.syncs, ∀ s, y.stage.snapshot? = some s → ∀ key, normalize t.ip = some key → versionAt r key y.began ≤ s.version

/-- A sync that goes on stays fresh. -/
theorem HistoryTab.Fresh.setSync {t : HistoryTab} (h : t.Fresh r) {j : Nat} {y : Sync} {stage : SyncStage}
    (hstage : ∀ s, stage.snapshot? = some s → ∀ key, normalize t.ip = some key → versionAt r key y.began ≤ s.version) :
    (t.setSync j y stage).Fresh r := by
  intro z hz s hs key hkey
  rcases HistoryTab.mem_setSync hz with hz | rfl
  · exact h z hz s hs key hkey
  · exact hstage s hs key hkey

/-- A tab of the same IP whose syncs are those of a fresh one, and others without a snapshot. -/
theorem HistoryTab.Fresh.of_syncs {t t' : HistoryTab} (h : t.Fresh r) (hip : t'.ip = t.ip)
    (hsyncs : ∀ y ∈ t'.syncs, y ∈ t.syncs ∨ y.stage.snapshot? = none) : t'.Fresh r := by
  intro z hz s hs key hkey
  rw [hip] at hkey
  rcases hsyncs z hz with hz | hnone
  · exact h z hz s hs key hkey
  · rw [hnone] at hs
    cases hs

/-- What the transaction saved is no older than what it was given. -/
theorem version_le_writeSnapshot (store : SnapshotStore) (k : Nat × String) (s : HistorySnapshot) (force : Bool) :
    s.version ≤ (writeSnapshot store k s force).1.version := by
  unfold writeSnapshot
  split
  · exact le_refl _
  split
  · rename_i hnewer
    exact (hnewer.2 : s.version < _).le
  · exact le_refl _

/-- The version of an answer is no older than the history was when the sync began. -/
theorem AnswerOf.versionAt_le {m n : Nat} {key : String} {since : Option Nat} {b : HistoryBody}
    (hmono : Monotone (versionAt r key))
    (h : AnswerOf r m n key since b) : versionAt r key m ≤ b.version := by
  unfold AnswerOf at h
  split at h
  · obtain ⟨-, -, k, hmk, -, hv⟩ := h
    rw [← hv]
    exact hmono hmk
  · obtain ⟨k, hmk, -, hv, -⟩ := h
    rw [← hv]
    exact hmono hmk

/-- So do all syncs of a tab, whatever it does. -/
theorem HistoryTab.Move.fresh (hmono : ∀ key, Monotone (versionAt r key)) {now : Nat} {t t' : HistoryTab} {e e' : Edge}
    {store store' : SnapshotStore} {a : TabAct} (h : t.Move now (databaseAt r now) e store a t' e' store')
    (hserved : ∀ y ∈ t.syncs, y.Served r now t.ip) (ht : t.Fresh r) : t'.Fresh r := by
  cases h with
  | opened => exact ht
  | begun _ hbegins edgeHit =>
    refine ht.of_syncs hbegins.same.1 fun y hy => ?_
    rcases HistoryTab.mem_sync hy with hy | rfl
    · exact Or.inl (hbegins.same.2 ▸ hy)
    · exact Or.inr rfl
  | called j y c k hy hs => exact ht.setSync nofun
  | answered j y b hy hs => exact ht.setSync nofun
  | received j y b hy hs =>
    obtain ⟨-, hstage⟩ := hserved y (List.mem_of_getElem? hy)
    simp only [hs] at hstage
    obtain ⟨key, hkey, hanswer⟩ := hstage
    refine ht.setSync fun s hs' key' hkey' => ?_
    rw [hkey] at hkey'
    cases hkey'
    have hle := hanswer.versionAt_le (hmono key)
    rcases t.receive_cases b with ⟨c, -, hc, heq⟩ | ⟨-, heq | heq⟩ <;> rw [heq] at hs' <;> cases hs'
    · exact hle.trans hc
    · exact hle
    · exact hle
  | wrote j y s force hy hs =>
    refine ht.setSync fun s' hs' key hkey => ?_
    cases hs'
    exact (ht y (List.mem_of_getElem? hy) s (by rw [hs]; rfl) key hkey).trans (version_le_writeSnapshot _ _ _ _)
  | accepted j y s hy hs =>
    refine ht.of_syncs (HistoryTab.accept_syncs s).2 fun z hz => Or.inl ?_
    rw [← (HistoryTab.accept_syncs (t := t) s).1]
    exact HistoryTab.mem_endSync hz
  | ended j hj => exact ht.of_syncs rfl fun z hz => Or.inl (HistoryTab.mem_endSync hz)

/-- In every run whose prunes keep the last check of each IP, and whose tabs receive known answers: when a sync ends well, the tab
shows the history the server had at some moment since that sync began. -/
theorem history_sync_fresh (hlast : KeepsLastIdsThroughout r) (hids : (r.state 0).db.checks.PositiveIds) {acts : List HistoryAct}
    {w w' : HistoryWorld} (hrun : run (nextHistory (databaseAt r)) .empty acts = some w)
    (hknown : Meets (nextHistory (databaseAt r)) ReceivesKnown .empty acts) {i j : Nat}
    {t : HistoryTab} (ht : w.tabs[i]? = some t)
    {began : Nat} {since : Option String} {s : HistorySnapshot} (hy : t.syncs[j]? = some ⟨began, since, .fresh s⟩)
    (hstep : nextHistory (databaseAt r) w (.tab i (.go j)) = some w') :
    ∃ t' c key m, w'.tabs[i]? = some t' ∧ t'.cache = some c ∧ t'.checks = c.checks ∧ normalize t.ip = some key ∧
      began ≤ m ∧ m ≤ w.now ∧ (r.state m).db.ipHistoryVersion key = c.version ∧
          historyChecks (r.state m).db key = .ok c.checks := by
  have hkeeps : KeepsLastIdThroughout r := fun n stmts ips k hl hm => (hlast n stmts ips k hl hm).keepsLastId
  have hsound : ∀ key, Signal.Sound (versionAt r key) (historyAt r key) := history_signal r hkeeps
  have hmono : ∀ key, Monotone (versionAt r key) := versionAt_mono r hlast
  obtain ⟨hserved, hw⟩ := worldExact_of_meets hkeeps hids hrun hknown
  have hfresh : ∀ t ∈ w.tabs, t.Fresh r := (Transition.invariant (I := fun w => WorldServed r w ∧ ∀ t ∈ w.tabs, t.Fresh r)
    (fun _ _ _ h hI => ⟨hI.1.next hsound h, nextHistory_tabs h hI.2 (fun _ _ => nofun) fun _ _ t _ _ hget hmove _ =>
      hmove.fresh hmono (hI.1.syncs t (List.mem_of_getElem? hget)) (hI.2 t (List.mem_of_getElem? hget))⟩)
        hrun ⟨worldServed_empty, nofun⟩).2
  have hmem := List.mem_of_getElem? ht
  have hsync := List.mem_of_getElem? hy
  obtain ⟨t₁, t', hget, hnext, htabs, -⟩ := nextHistory_tab hstep
  rw [ht] at hget
  cases hget
  simp only [HistoryTab.next, hy, Option.map_some, HistoryTab.goSync, Option.some.injEq, Prod.mk.injEq] at hnext
  obtain ⟨rfl, -, -⟩ := hnext
  have hview : Viewed r w.now t.ip s := (hw.tabs t hmem).coming _ hsync s rfl
  have hexact : (t.accept s).Exact r w.now := (hw.tabs t hmem).accept hview
  obtain ⟨c, hc, hversion⟩ := t.accept_version s
  obtain ⟨hshown, key, hkey, hseen⟩ := hexact.shown c hc
  rw [(HistoryTab.accept_syncs s).2] at hkey
  have hle : versionAt r key began ≤ c.version := by
    rw [hversion]
    exact hfresh t hmem _ hsync s rfl key hkey
  obtain ⟨m, hm, hn, hv, hvalue⟩ := (hsound key).seen_since (hmono key) hseen (hserved.syncs t hmem _ hsync).1 hle
  refine ⟨(t.accept s).endSync j, c, key, m, ?_, hc, hshown, hkey, hm, hn, hv, hvalue⟩
  rw [htabs]
  exact List.getElem?_set_self (List.getElem?_eq_some_iff.1 ht).1

/-- The sync began before a prune and ends after it; the tab shows the 300 checks of a moment in between. -/
theorem history_sync_fresh_across_prune : ∃ (began now : Nat) (t : HistoryTab) (c : HistorySnapshot) (key : String) (m : Nat),
    (overRun.state began).db.historyCount "8.8.8.8" = 301 ∧
      (overRun.state now).db.historyCount "8.8.8.8" = 300 ∧ t.cache = some c ∧
    t.checks = c.checks ∧ normalize "8.8.8.8" = some key ∧ began ≤ m ∧ m ≤ now ∧
    (overRun.state m).db.ipHistoryVersion key = c.version ∧ historyChecks (overRun.state m).db key = .ok c.checks := by
  obtain ⟨began, k, checks, -, -, hbefore, hafter, -, hrun⟩ := overRun_visit
  obtain ⟨t, c, key, m, -, hc, hshown, hkey, hm, hn, hv, hchecks⟩ :=
    history_sync_fresh overRun_keeps nofun (run_visitAcross_written hrun)
    (meets_receivesKnown overRun_keepsLast (visitAcross_alone began k)) (i := 0) (j := 0) rfl rfl rfl
  exact ⟨began, began + k, t, c, key, m, hbefore, hafter, hc, hshown, hkey, hm, hn, hv, hchecks⟩

end Gwsdb.Web
