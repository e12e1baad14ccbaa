import Gwsdb.Lemmas.Dates
import Gwsdb.Lemmas.HistorySignal
import Gwsdb.Lemmas.HistoryTabs

/-!
# The answers of the history endpoint

The endpoint reads the version of a history, the history, and the version again, and keeps its answers in an edge cache under the
version. Each answer is the history of one moment of its request, whatever writes come in between.
-/

namespace Gwsdb.Web

open Gwsdb.Store
open Interleave (Run Prog)
open IsoTime (isoText)
open Keyed (Table)
open Signal (SeenIn)
open Transition (run)

/-- The database at the moments of a run. -/
def databaseAt (r : Run start serve) (n : Nat) : Database := (r.state n).db

/-- No prune of the run deletes the row with the greatest id of `ip_checks`. -/
def KeepsLastIdThroughout (r : Run start serve) : Prop :=
  ∀ n stmts ips k, r.label n = some (.batch stmts) → Stmt.deleteOldChecks ips k ∈ stmts → (r.state n).db.KeepsLastId ips k

/-- No prune of the run deletes the row with the greatest id of an IP. -/
def KeepsLastIdsThroughout (r : Run start serve) : Prop :=
  ∀ n stmts ips k, r.label n = some (.batch stmts) → Stmt.deleteOldChecks ips k ∈ stmts → (r.state n).db.KeepsLastIds ips k

variable {r : Run start serve}

/-! ## The endpoint -/

/-- The version and the checks of a body are those of a moment from `m` to `n`. A body without `reset` only says that the version
the client gave is the one of such a moment. -/
def AnswerOf (r : Run start serve) (m n : Nat) (key : String) (since : Option Nat) (b : HistoryBody) : Prop :=
  match b.reset with
  | none => b.checks = [] ∧ since = some b.version ∧ ∃ k, m ≤ k ∧ k ≤ n ∧ versionAt r key k = b.version
  | some _ => SeenIn (versionAt r key) (historyAt r key) m n b.version (.ok b.checks)

/-- An answer of some moments is one of more. -/
theorem AnswerOf.mono {m n n' : Nat} {key : String} {since : Option Nat} {b : HistoryBody} (hn : n ≤ n')
    (h : AnswerOf r m n key since b) : AnswerOf r m n' key since b := by
  unfold AnswerOf at h ⊢
  split
  · rename_i hreset
    rw [hreset] at h
    obtain ⟨hnil, hsince, k, hmk, hkn, hv⟩ := h
    exact ⟨hnil, hsince, k, hmk, hkn.trans hn, hv⟩
  · rename_i hreset
    rw [hreset] at h
    exact h.mono (le_refl m) hn

/-- An entry of the edge cache, or one on its way into it, holds the history of its IP at its version. -/
structure EdgeExact (r : Run start serve) (n : Nat) (e : Edge) : Prop where
  cached : ∀ key v b, e.cache.get? (key, v) = some b →
    b.version = v ∧ b.reset ≠ none ∧ SeenIn (versionAt r key) (historyAt r key) 0 n v (.ok b.checks)
  putting : ∀ key v b, ((key, v), b) ∈ e.puts →
    b.version = v ∧ b.reset ≠ none ∧ SeenIn (versionAt r key) (historyAt r key) 0 n v (.ok b.checks)

/-- An exact edge stays exact. -/
theorem EdgeExact.mono {n n' : Nat} {e : Edge} (hn : n ≤ n') (h : EdgeExact r n e) : EdgeExact r n' e where
  cached key v b hb := ⟨(h.cached key v b hb).1, (h.cached key v b hb).2.1, (h.cached key v b hb).2.2.mono (le_refl 0) hn⟩
  putting key v b hb := ⟨(h.putting key v b hb).1, (h.putting key v b hb).2.1, (h.putting key v b hb).2.2.mono (le_refl 0) hn⟩

/-- What is left of a request for a valid IP that began at moment `m`, at a later moment `n`. -/
inductive Serving (r : Run start serve) (m n : Nat) (key : String) (since : Option Nat) : HistoryProgram → Prop
  | asked (edgeHit : Bool) : Serving r m n key since (serveHistory key since edgeHit)
  | matching (k : Nat) (hm : m ≤ k) (hn : k ≤ n) : Serving r m n key since (cachedHistory key (versionAt r key k))
  | loading (k : Nat) (hm : m ≤ k) (hn : k ≤ n)
    (reset : Bool) : Serving r m n key since (loadHistory key (versionAt r key k) reset)
  | rereading (k i : Nat) (hm : m ≤ k) (hk : k ≤ i) (hn : i ≤ n) (reset : Bool) :
      Serving r m n key since (recheckHistory key (versionAt r key k) reset
        ((r.state i).db.ipHistory key CHECK_HISTORY_RETENTION 0))
  | putting (v : Nat) (reset : Bool) (checks : List HistoryCheck)
      (h : SeenIn (versionAt r key) (historyAt r key) m n v (.ok checks)) : Serving r m n key since
        (putHistory key v reset checks)
  | answered (b : HistoryBody) (h : AnswerOf r m n key since b) : Serving r m n key since (.ret (.body b))
  | retry : Serving r m n key since (.ret .retry)
  | thrown (e : String) : Serving r m n key since (.fail e)

/-- A request being served is served later as well. -/
theorem Serving.mono {m n n' : Nat} {key : String} {since : Option Nat} {p : HistoryProgram} (hn : n ≤ n')
    (h : Serving r m n key since p) :
    Serving r m n' key since p := by
  cases h with
  | asked edgeHit => exact .asked edgeHit
  | matching k hm hk => exact .matching k hm (hk.trans hn)
  | loading k hm hk reset => exact .loading k hm (hk.trans hn) reset
  | rereading k i hm hk hi reset => exact .rereading k i hm hk (hi.trans hn) reset
  | putting v reset checks h => exact .putting v reset checks (h.mono (le_refl m) hn)
  | answered b h => exact .answered b (h.mono hn)
  | retry => exact .retry
  | thrown e => exact .thrown e

/-- Once the version is read, the client has it, or the answer is looked for in the cache or in the database. -/
theorem serving_versioned {m n : Nat} (hmn : m ≤ n) (key : String) (since : Option Nat) (edgeHit : Bool) :
    Serving r m n key since (versionedHistory key since edgeHit (versionAt r key n)) := by
  unfold versionedHistory
  split
  · exact .answered _ ⟨rfl, ‹_›, n, hmn, le_refl n, rfl⟩
  split
  · exact .loading n hmn (le_refl n) true
  split
  · exact .matching n hmn (le_refl n)
  · exact .loading n hmn (le_refl n) false

/-- The next call of a request, answered at moment `n`, and the edge cache after it. -/
theorem Serving.step (hsound : ∀ key, Signal.Sound (versionAt r key) (historyAt r key)) {m n : Nat} (hmn : m ≤ n) {key : String}
    {since : Option Nat} {c : HistoryCall} {k : HistoryReply c → HistoryProgram} (h : Serving r m n key since (.call c k))
    {e : Edge} (he : EdgeExact r n e) :
    Serving r m n key since (k (answerHistory (databaseAt r n) c e).1) ∧
        EdgeExact r n (answerHistory (databaseAt r n) c e).2 := by
  generalize hp : (Prog.call c k : HistoryProgram) = p at h
  cases h with
  | asked edgeHit =>
    cases hp
    exact ⟨serving_versioned hmn key since edgeHit, he⟩
  | matching i hm hn =>
    cases hp
    refine ⟨?_, he⟩
    have hreply : (answerHistory (databaseAt r n) (.cacheMatch key (versionAt r key i)) e).1 =
      e.cache.get? (key, versionAt r key i) := rfl
    rw [hreply]
    cases hb : e.cache.get? (key, versionAt r key i) with
    | none => exact .loading i hm hn false
    | some b =>
      obtain ⟨hv, hreset, hseen⟩ := he.cached key _ b hb
      refine .answered b ?_
      unfold AnswerOf
      split
      · exact absurd ‹_› hreset
      · exact ⟨i, hm, hn, hv.symm, (hsound key).seen_again hseen rfl⟩
  | loading i hm hn reset =>
    cases hp
    exact ⟨.rereading i n hm hn (le_refl n) reset, he⟩
  | rereading i j hm hk hn reset =>
    cases hp
    refine ⟨?_, he⟩
    show Serving r m n key since (if versionAt r key n ≠ versionAt r key i then Prog.ret .retry
      else Prog.ofExcept (historyAt r key j) >>= putHistory key (versionAt r key i) reset)
    split
    · exact .retry
    · rename_i hv
      cases hchecks : historyAt r key j with
      | error e => exact .thrown e
      | ok checks =>
        refine .putting _ reset checks ?_
        rw [← hchecks]
        exact ((hsound key).seen_of_reread hk hn (not_not.1 hv)).mono hm (le_refl n)
  | putting v reset checks h =>
    unfold putHistory at hp
    split at hp
    · cases hp
    · rename_i hreset
      cases hp
      refine ⟨.answered _ h, he.cached, ?_⟩
      intro key' v' b hb
      rcases List.mem_append.1 hb with hb | hb
      · exact he.putting key' v' b hb
      · cases List.mem_singleton.1 hb
        exact ⟨rfl, nofun, h.mono (Nat.zero_le m) (le_refl n)⟩
  | answered b h => cases hp
  | retry => cases hp
  | thrown e => cases hp

/-- The answer a request has come to. -/
theorem Serving.answer {m n : Nat} {key : String} {since : Option Nat} {b : HistoryBody}
    (h : Serving r m n key since (.ret (.body b))) : AnswerOf r m n key since b := by
  generalize hp : (Prog.ret (HistoryResponse.body b) : HistoryProgram) = p at h
  cases h with
  | answered b' hb =>
    cases hp
    exact hb
  | putting v reset checks hseen =>
    unfold putHistory at hp
    split at hp <;> cases hp
    exact hseen
  | _ => cases hp

/-! ## Requests of the tabs -/

/-- A sync whose request is served or whose data has come: all of it is of moments since the sync began. -/
def Sync.Served (r : Run start serve) (n : Nat) (ip : String) (y : Sync) : Prop :=
  y.began ≤ n ∧
    match y.stage with
    | .fetch p => (∃ key, normalize ip = some key ∧ Serving r y.began n key (y.since.bind readSince) p) ∨
      ∃ status message, p = .ret (.text status message)
    | .data b => ∃ key, normalize ip = some key ∧ AnswerOf r y.began n key (y.since.bind readSince) b
    | .write _ _ => True
    | .fresh _ => True

/-- So is a sync. -/
theorem Sync.Served.mono {n n' : Nat} {ip : String} {y : Sync} (hn : n ≤ n') (h : y.Served r n ip) : y.Served r n' ip := by
  obtain ⟨hbegan, hstage⟩ := h
  refine ⟨hbegan.trans hn, ?_⟩
  split
  · rename_i hs
    simp only [hs] at hstage
    rcases hstage with ⟨key, hkey, hserving⟩ | htext
    · exact Or.inl ⟨key, hkey, hserving.mono hn⟩
    · exact Or.inr htext
  · rename_i hs
    simp only [hs] at hstage
    obtain ⟨key, hkey, hanswer⟩ := hstage
    exact ⟨key, hkey, hanswer.mono hn⟩
  · trivial
  · trivial

/-- A sync that begins is served. -/
theorem Sync.served_begin (now : Nat) (ip : String) (since : Option String) (edgeHit : Bool) :
    Sync.Served r now ip ⟨now, since, .fetch (handleHistory ip since edgeHit)⟩ := by
  refine ⟨le_refl now, ?_⟩
  show (∃ key, normalize ip = some key ∧ Serving r now now key (since.bind readSince) (handleHistory ip since edgeHit)) ∨
    ∃ status message, handleHistory ip since edgeHit = .ret (.text status message)
  unfold handleHistory
  cases hkey : normalize ip with
  | none => exact Or.inr ⟨400, _, rfl⟩
  | some key =>
    cases since with
    | none => exact Or.inl ⟨key, rfl, .asked edgeHit⟩
    | some text =>
      simp only [Option.bind_some]
      cases readSince text with
      | none => exact Or.inr ⟨400, _, rfl⟩
      | some since => exact Or.inl ⟨key, rfl, .asked edgeHit⟩

/-- A move keeps the requests of a tab served, and the edge cache exact. -/
theorem HistoryTab.Move.served (hsound : ∀ key, Signal.Sound (versionAt r key) (historyAt r key)) {now : Nat} {t t' : HistoryTab}
    {e e' : Edge} {store store' : SnapshotStore} {a : TabAct} (h : t.Move now (databaseAt r now) e store a t' e' store')
    (he : EdgeExact r now e) (ht : ∀ y ∈ t.syncs, y.Served r now t.ip) :
    EdgeExact r now e' ∧ ∀ y ∈ t'.syncs, y.Served r now t.ip := by
  cases h with
  | opened => exact ⟨he, ht⟩
  | @begun _ _ t₀ hbegins edgeHit =>
    refine ⟨he, fun z hz => ?_⟩
    rcases HistoryTab.mem_sync hz with hz | rfl
    · exact ht z (hbegins.same.2 ▸ hz)
    · rw [← hbegins.same.1]
      exact Sync.served_begin now _ _ edgeHit
  | called j y c k hy hs =>
    obtain ⟨hbegan, hstage⟩ := ht y (List.mem_of_getElem? hy)
    simp only [hs] at hstage
    rcases hstage with ⟨key, hkey, hserving⟩ | ⟨status, message, htext⟩
    · obtain ⟨hnext, hedge⟩ := hserving.step hsound hbegan he
      refine ⟨hedge, fun z hz => ?_⟩
      rcases HistoryTab.mem_setSync hz with hz | rfl
      · exact ht z hz
      · exact ⟨hbegan, Or.inl ⟨key, hkey, hnext⟩⟩
    · cases htext
  | answered j y b hy hs =>
    obtain ⟨hbegan, hstage⟩ := ht y (List.mem_of_getElem? hy)
    simp only [hs] at hstage
    refine ⟨he, fun z hz => ?_⟩
    rcases HistoryTab.mem_setSync hz with hz | rfl
    · exact ht z hz
    rcases hstage with ⟨key, hkey, hserving⟩ | ⟨status, message, htext⟩
    · exact ⟨hbegan, key, hkey, hserving.answer⟩
    · cases htext
  | received j y b hy hs =>
    refine ⟨he, fun z hz => ?_⟩
    rcases HistoryTab.mem_setSync hz with hz | rfl
    · exact ht z hz
    · refine ⟨(ht y (List.mem_of_getElem? hy)).1, ?_⟩
      rcases t.receive_cases b with ⟨c, -, -, heq⟩ | ⟨-, heq | heq⟩ <;> simp only [heq]
  | wrote j y s force hy hs =>
    refine ⟨he, fun z hz => ?_⟩
    rcases HistoryTab.mem_setSync hz with hz | rfl
    · exact ht z hz
    · exact ⟨(ht y (List.mem_of_getElem? hy)).1, trivial⟩
  | accepted j y s hy hs =>
    refine ⟨he, fun z hz => ht z ?_⟩
    rw [← (HistoryTab.accept_syncs (t := t) s).1]
    exact HistoryTab.mem_endSync hz
  | ended j hj => exact ⟨he, fun z hz => ht z (HistoryTab.mem_endSync hz)⟩

/-- The requests of all tabs are served and the edge cache is exact. -/
structure WorldServed (r : Run start serve) (w : HistoryWorld) : Prop where
  edge : EdgeExact r w.now w.edge
  syncs : ∀ t ∈ w.tabs, ∀ y ∈ t.syncs, y.Served r w.now t.ip

/-- An empty world is served. -/
theorem worldServed_empty : WorldServed r .empty := ⟨⟨nofun, nofun⟩, nofun⟩

/-- An entry that has come into the edge cache is exact, and those that are left in it are. -/
theorem EdgeExact.settle {n k : Nat} {e : Edge} (h : EdgeExact r n e) {put : (String × Nat) × HistoryBody}
    (hk : e.puts[k]? = some put) :
    EdgeExact r n ⟨e.cache.put put.1 put.2, e.puts.eraseIdx k⟩ where
  cached key v b hb := by
    rw [Table.get?_put] at hb
    split at hb
    · rename_i heq
      cases hb
      refine h.putting key v put.2 ?_
      rw [heq]
      exact List.mem_of_getElem? hk
    · exact h.cached key v b hb
  putting key v b hb := h.putting key v b (List.mem_of_mem_eraseIdx hb)

/-- Dropping an entry keeps the edge exact. -/
theorem EdgeExact.drop {n : Nat} {e : Edge} (h : EdgeExact r n e) (key : String × Nat) :
    EdgeExact r n { e with cache := e.cache.filter fun k _ => k ≠ key } where
  cached key' v b hb := h.cached key' v b (Table.get?_of_filter hb)
  putting := h.putting

/-- Every step keeps requests served. -/
theorem WorldServed.next (hsound : ∀ key, Signal.Sound (versionAt r key) (historyAt r key)) {w w' : HistoryWorld} {a : HistoryAct}
    (h : nextHistory (databaseAt r) w a = some w') (hw : WorldServed r w) : WorldServed r w' := by
  refine ⟨?_, nextHistory_tabs h ?_ (fun _ _ => nofun) ?_⟩
  · cases a with
    | tab i b =>
      obtain ⟨t, t', hget, hnext, -, hnow⟩ := nextHistory_tab h
      rw [hnow]
      exact ((HistoryTab.next_move hnext).served hsound hw.edge (hw.syncs t (List.mem_of_getElem? hget))).1
    | settle k =>
      obtain ⟨put, hput, rfl⟩ := Option.map_eq_some_iff.1 h
      exact hw.edge.settle hput
    | tick =>
      cases h
      exact hw.edge.mono (Nat.le_succ _)
    | openTab browser ip =>
      cases h
      exact hw.edge
    | drop key =>
      cases h
      exact hw.edge.drop key
  · exact fun t ht y hy => (hw.syncs t ht y hy).mono (nextHistory_now h)
  · intro i b t t' _ hget hmove hnow
    rw [hnow, hmove.ip_eq]
    exact (hmove.served hsound hw.edge (hw.syncs t (List.mem_of_getElem? hget))).2

/-- In every run in which no prune deletes the row with the greatest id of `ip_checks`, and for every course of requests beside
it: an answer that has come holds the history its IP had, and the version it had, at one moment between the beginning of the
request and now; or it holds no checks, and the version of such a moment is the one that was sent. -/
theorem history_answer_exact (hlast : KeepsLastIdThroughout r) {acts : List HistoryAct} {w : HistoryWorld}
    (hrun : run (nextHistory (databaseAt r)) .empty acts = some w) {t : HistoryTab} (ht : t ∈ w.tabs)
    {began : Nat} {b : HistoryBody}
    {since : Option String} (hy : ⟨began, since, .data b⟩ ∈ t.syncs) :
    ∃ key m, normalize t.ip = some key ∧ began ≤ m ∧ m ≤ w.now ∧ (r.state m).db.ipHistoryVersion key = b.version ∧
      (historyChecks (r.state m).db key = .ok b.checks ∨
        b.reset = none ∧ b.checks = [] ∧ since.bind readSince = some b.version) := by
  have hsound : ∀ key, Signal.Sound (versionAt r key) (historyAt r key) := history_signal r hlast
  have hw : WorldServed r w := Transition.invariant (fun _ _ _ h => WorldServed.next hsound h) hrun worldServed_empty
  obtain ⟨-, key, hkey, hanswer⟩ := hw.syncs t ht _ hy
  unfold AnswerOf at hanswer
  split at hanswer
  · rename_i hreset
    obtain ⟨hnil, hsince, m, hm, hn, hv⟩ := hanswer
    exact ⟨key, m, hkey, hm, hn, hv, Or.inr ⟨hreset, hnil, hsince⟩⟩
  · obtain ⟨m, hm, hn, hv, hvalue⟩ := hanswer
    exact ⟨key, m, hkey, hm, hn, hv, Or.inl hvalue⟩

/-! ## A visit across a prune -/

/-- Ticks pass the time. -/
theorem run_ticks (db : Nat → Database) (w : HistoryWorld) (k : Nat) :
    run (nextHistory db) w (List.replicate k .tick) = some { w with now := w.now + k } := by
  induction k generalizing w with
  | zero => rfl
  | succ k ih =>
    rw [List.replicate_succ, run, nextHistory, Option.bind_some, ih, Nat.add_right_comm]
    rfl

/-- A tab is opened at a moment, and its request reads the version; `k` moments later it reads the rest. -/
def visitAcross (m k : Nat) : List HistoryAct :=
  List.replicate m .tick ++ [.openTab 0 "8.8.8.8", .tab 0 .openCache, .tab 0 (.readCache true), .tab 0 (.go 0)] ++
    List.replicate k .tick ++ List.replicate 5 (.tab 0 (.go 0))

/-- A body with the checks of a version. -/
def bodyOf (v : Nat) (checks : List HistoryCheck) : HistoryBody := ⟨v, some false, checks⟩

/-- Where such a visit leads, if the version has stayed: the answer has come, and is on its way into the edge cache. -/
def visitedWorld (m k v : Nat) (checks : List HistoryCheck) : HistoryWorld where
  now := m + k
  edge := ⟨Table.empty, [(("8.8.8.8", v), bodyOf v checks)]⟩
  store := Table.empty
  tabs := [⟨0, "8.8.8.8", .ready, true, none, [], [⟨m, none, .data (bodyOf v checks)⟩]⟩]

/-- A visit across some moments stores what its moments say. -/
theorem run_visitAcross (r : Run start serve) {m k v : Nat} {checks : List HistoryCheck} (hm : versionAt r "8.8.8.8" m = v)
    (hn : versionAt r "8.8.8.8" (m + k) = v) (hchecks : historyAt r "8.8.8.8" (m + k) = .ok checks) :
    run (nextHistory (databaseAt r)) .empty (visitAcross m k) = some (visitedWorld m k v checks) := by
  have hkey : handleHistory "8.8.8.8" none true = serveHistory "8.8.8.8" none true := by
    have hnormal : normalize "8.8.8.8" = some "8.8.8.8" := by decide +kernel
    unfold handleHistory
    rw [hnormal]
  have hbegin : run (nextHistory (databaseAt r)) ⟨m, ⟨Table.empty, []⟩, Table.empty, []⟩
      [.openTab 0 "8.8.8.8", .tab 0 .openCache, .tab 0 (.readCache true)] =
        some ⟨m, ⟨Table.empty, []⟩, Table.empty, [⟨0, "8.8.8.8", .ready, true, none, [],
          [⟨m, none, .fetch (handleHistory "8.8.8.8" none true)⟩]⟩]⟩ := rfl
  rw [hkey] at hbegin
  have hopen : run (nextHistory (databaseAt r)) ⟨m, ⟨Table.empty, []⟩, Table.empty, []⟩
      [.openTab 0 "8.8.8.8", .tab 0 .openCache, .tab 0 (.readCache true), .tab 0 (.go 0)] =
        some ⟨m, ⟨Table.empty, []⟩, Table.empty, [⟨0, "8.8.8.8", .ready, true, none, [],
          [⟨m, none, .fetch (cachedHistory "8.8.8.8" (versionAt r "8.8.8.8" m))⟩]⟩]⟩ :=
    Transition.run_append.2 ⟨_, hbegin, rfl⟩
  have hread : run (nextHistory (databaseAt r)) ⟨m + k, ⟨Table.empty, []⟩, Table.empty, [⟨0, "8.8.8.8", .ready, true, none, [],
      [⟨m, none, .fetch (cachedHistory "8.8.8.8" v)⟩]⟩]⟩ (List.replicate 3 (.tab 0 (.go 0))) =
        some ⟨m + k, ⟨Table.empty, []⟩, Table.empty, [⟨0, "8.8.8.8", .ready, true, none, [], [⟨m, none,
          .fetch (if versionAt r "8.8.8.8" (m + k) ≠ v then .ret .retry
            else Prog.ofExcept (historyAt r "8.8.8.8" (m + k)) >>= putHistory "8.8.8.8" v false)⟩]⟩]⟩ := rfl
  rw [hn, if_neg (not_not.2 rfl), hchecks] at hread
  have hticks : run (nextHistory (databaseAt r)) .empty (List.replicate m .tick) =
      some ⟨m, ⟨Table.empty, []⟩, Table.empty, []⟩ := by
    rw [run_ticks, HistoryWorld.empty, Nat.zero_add]
  rw [hm] at hopen
  have hlater := Transition.run_append.2 ⟨_, Transition.run_append.2 ⟨_, hticks, hopen⟩, run_ticks _ _ k⟩
  have hanswered : run (nextHistory (databaseAt r)) _ (List.replicate 3 (.tab 0 (.go 0)) ++ List.replicate 2 (.tab 0 (.go 0))) =
      some (visitedWorld m k v checks) := Transition.run_append.2 ⟨_, hread, rfl⟩
  exact Transition.run_append.2 ⟨_, hlater, hanswered⟩

/-- The long run keeps the last ids. -/
theorem overRun_keeps : KeepsLastIdsThroughout overRun := by
  intro n stmts ips k hl hm ip hip r hlast
  obtain ⟨rfl, hips, hfirst⟩ := overRun_deletes hl hm
  have hfew : 1 ≤ CHECK_HISTORY_RETENTION := by decide
  rw [hips ip hip] at hlast
  rw [hfirst r (List.mem_of_getLast? hlast) fun r' hr' => IpChecks.le_last _ hr' hlast]
  exact hfew

/-- It keeps the last id. -/
theorem overRun_keepsLast : KeepsLastIdThroughout overRun := fun n stmts ips k hl hm =>
    (overRun_keeps n stmts ips k hl hm).keepsLastId

/-- Each of the checks is shown. -/
theorem exists_toHistoryCheck {i : Nat} (hi : i < 301) :
    ∃ check, toHistoryCheck (reachedRow i 10 (i + 1)).toHistoryRow = .ok check := by
  have hyear : IsoTime.FourDigitYear (atSecond i) :=
    IsoTime.fourDigitYear_of_bounds (by unfold atSecond; omega) (by unfold atSecond; omega)
  have hdate : fromSQLiteDateTime (some (isoText (atSecond i))) = some (some (atSecond i)) :=
    fromSQLiteDateTime_isoText ⟨by linarith [hyear.1], by linarith [hyear.2]⟩
  have hshown : ∀ (row : IPCheckHistoryRow) (t : Int), row.checkedAt = some (some t) →
      ∃ check, toHistoryCheck row = .ok check := by
    rintro ⟨ip, ok, rttMs, reason, detail, _, scanMode⟩ t rfl
    exact ⟨_, rfl⟩
  exact hshown _ _ hdate

/-- The history after the prune as the endpoint shows it. -/
theorem historyChecks_inOrder {db : Database} (h : (db.standing "8.8.8.8").checks = (inOrder 301).take CHECK_HISTORY_RETENTION) :
    ∃ checks, historyChecks db "8.8.8.8" = .ok checks ∧ checks.length = 300 := by
  have hrows : db.ipHistory "8.8.8.8" CHECK_HISTORY_RETENTION 0 =
      ((inOrder 301).take CHECK_HISTORY_RETENTION).map IpCheck.toHistoryRow := by
    rw [Database.ipHistory, List.drop_zero]
    show ((db.standing "8.8.8.8").checks.take CHECK_HISTORY_RETENTION).map _ = _
    rw [h, List.take_take, min_self]
  have hshown : ∀ row ∈ ((inOrder 301).take CHECK_HISTORY_RETENTION).map IpCheck.toHistoryRow, ∃ check,
      toHistoryCheck row = .ok check := by
    intro row hrow
    obtain ⟨r, hr, rfl⟩ := List.mem_map.1 hrow
    obtain ⟨i, hi, rfl⟩ := mem_inOrder.1 (List.mem_of_mem_take hr)
    exact exists_toHistoryCheck hi
  obtain ⟨checks, hchecks⟩ := exists_mapM_ok hshown
  refine ⟨checks, by rw [historyChecks, hrows, hchecks], ?_⟩
  rw [← (Interleave.mapM_ok_iff.1 hchecks).length_eq, List.length_map, List.length_take, length_inOrder]
  rfl

/-- The visit whose request reads the version before the prune and the history after it. -/
theorem overRun_visit : ∃ m k checks, versionAt overRun "8.8.8.8" m = 301 ∧ versionAt overRun "8.8.8.8" (m + k) = 301 ∧
    (overRun.state m).db.historyCount "8.8.8.8" = 301 ∧
    (overRun.state (m + k)).db.historyCount "8.8.8.8" = 300 ∧ checks.length = 300 ∧
    run (nextHistory (databaseAt overRun)) .empty (visitAcross m k) = some (visitedWorld m k 301 checks) := by
  obtain ⟨m, n, hmn, hm, hn⟩ := overRun_moments
  obtain ⟨k, rfl⟩ := Nat.exists_eq_add_of_le hmn
  obtain ⟨checks, hchecks, hlength⟩ := historyChecks_inOrder hn
  have hvm : versionAt overRun "8.8.8.8" m = 301 := lastId_overRun (Or.inl hm)
  have hvn : versionAt overRun "8.8.8.8" (m + k) = 301 := lastId_overRun (Or.inr hn)
  refine ⟨m, k, checks, hvm, hvn, ?_, ?_, hlength, run_visitAcross overRun hvm hvn hchecks⟩
  · rw [Database.historyCount_eq, hm, length_inOrder]
  · rw [Database.historyCount_eq, hn, List.length_take, length_inOrder]
    rfl

/-- A request that read the version before a prune and the checks after it answers the 300 checks of one moment in between. -/
theorem history_answer_exact_across_prune : ∃ began now key checks m, (overRun.state began).db.historyCount "8.8.8.8" = 301 ∧
    (overRun.state now).db.historyCount "8.8.8.8" = 300 ∧ checks.length = 300 ∧
      normalize "8.8.8.8" = some key ∧ began ≤ m ∧ m ≤ now ∧
    (overRun.state m).db.ipHistoryVersion key = 301 ∧ historyChecks (overRun.state m).db key = .ok checks := by
  obtain ⟨began, k, checks, -, -, hbefore, hafter, hlength, hrun⟩ := overRun_visit
  obtain ⟨key, m, hkey, hm, hn, hv, hchecks | ⟨hreset, -⟩⟩ := history_answer_exact overRun_keepsLast hrun List.mem_cons_self
    List.mem_cons_self
  · exact ⟨began, began + k, key, checks, m, hbefore, hafter, hlength, hkey, hm, hn, hv, hchecks⟩
  · cases hreset

end Gwsdb.Web
