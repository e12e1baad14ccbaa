import Gwsdb.Lemmas.PoolUpdate
import Gwsdb.Theorems.DeltaExact

/-!
# No reachable IP is lost

An IP with a reachable check is in the pool, or a request in progress has inserted such a check and is still to write the pool
row. An eviction deletes a pool row only where the history has no reachable check at that moment, and a request inserts before it
writes the pool, so a check inserted after an eviction was decided has its pool update still to come.
-/

namespace Gwsdb.Web

open Gwsdb.Store
open Interleave (Run Prog Decision)

/-- A request in progress has inserted a reachable check of the IP and has not written its pool row. -/
def Pending (r : Run start serve) (n : Nat) (ip : String) : Prop :=
  ∃ t ∈ (r.config n).threads, (∃ e k, t.prog = .call e k) ∧ (∃ ev ∈ t.hist, AddsReachable ip ev) ∧
    ∀ ev ∈ t.hist, ¬UpdatesPool ip ev

/-- An allowed call loses no pool row of an IP with a reachable check. -/
theorem serve_keeps {e : Store.Call} (he : Allowed e) {s : Store.Site} {ip : String} (hpool : s.db.pool.get? ip ≠ none)
    (hreach : (serve e s).2.db.Reachable ip) : (serve e s).2.db.pool.get? ip ≠ none := by
  cases e with
  | batch stmts =>
    rw [serve_batch] at hreach ⊢
    have hbatch : WriteBatch stmts := he
    cases hbatch with
    | evict ips =>
      have hget : (s.db.after [.bumpPoolRevision, .markReset, .evict ips]).pool.get? ip =
          (s.db.pool.get? ip).filter fun _ => !decide (ip ∈ ips ∧ ¬s.db.Reachable ip) := Keyed.Table.get?_filter _ _ _
      obtain ⟨row, hrow⟩ := Option.ne_none_iff_exists'.1 hpool
      rw [hget, hrow, Option.filter_some, if_pos]
      · exact Option.some_ne_none _
      · have hkept : s.db.Reachable ip := hreach
        simp [hkept]
    | inserts h =>
      refine Database.after_isSome (fun stmt hm ips heq => ?_) hpool
      have hi := h stmt hm
      rw [heq] at hi
      cases hi
    | pool h =>
      refine Database.after_isSome (fun stmt hm ips heq => ?_) hpool
      subst heq
      rcases List.mem_cons.1 hm with hm | hm
      · cases hm
      · cases h _ hm
    | ptr pairs =>
      refine Database.after_isSome (fun stmt hm ips heq => ?_) hpool
      subst heq
      rcases List.mem_cons.1 hm with hm | hm
      · cases hm
      · obtain ⟨p, -, hp⟩ := List.mem_flatMap.1 hm
        simp [ptrPair] at hp
    | prune ips =>
      refine Database.after_isSome (fun stmt hm ips' heq => ?_) hpool
      subst heq
      simp at hm
  | _ => exact hpool

/-- An IP becomes reachable only by a call that adds a reachable check. -/
theorem adds_of_reachable {e : Store.Call} {s : Store.Site} {reply : Reply e} {ip : String} (hnot : ¬s.db.Reachable ip)
    (hreach : (serve e s).2.db.Reachable ip) : AddsReachable ip ⟨s, e, reply⟩ := by
  obtain ⟨row, hrow, hok⟩ := hreach
  obtain ⟨hmem, hip⟩ := IpChecks.mem_of.1 hrow
  exact ⟨row, hmem, hip, hok, fun hold => hnot ⟨row, IpChecks.mem_of.2 ⟨hold, hip⟩, hok⟩⟩

/-- A batch of inserts writes no pool row. -/
theorem not_updates_of_inserts {ev : Prog.Event Store.Call Reply Store.Site}
    (h : Each (fun stmt => stmt.inserted? ≠ none) ev.call) (ip : String) :
    ¬UpdatesPool ip ev := by
  rintro ⟨⟨stmts, hcall, stmt, hm, hip⟩, -⟩
  rw [hcall] at h
  exact h stmt hm (poolIp_not_inserted hip)

/-- One step of the run. The thread that moved is in progress when its history adds a reachable check and writes no
pool row. -/
theorem pending_step {r : Run start serve} (habort : ∀ n, ∀ t ∈ (r.config n).threads, ∀ e, t.prog ≠ .fail e) {n : Nat}
    {ip : String}
    (ih : (r.state n).db.Reachable ip → (r.state n).db.pool.get? ip ≠ none ∨ Pending r n ip)
    (hreach : (r.state (n + 1)).db.Reachable ip) : (r.state (n + 1)).db.pool.get? ip ≠ none ∨ Pending r (n + 1) ip := by
  by_cases hpool : (r.state (n + 1)).db.pool.get? ip = none
  swap
  · exact Or.inl hpool
  refine Or.inr ?_
  rcases r.threads_succ n with ⟨hl, u, hthreads⟩ | ⟨pre, post, t, e, k, hist, hl, hold, hnew⟩
  · -- A request starts: whoever was in progress still is.
    rw [r.state_of_none hl] at hreach hpool
    obtain ⟨t, ht, hpending⟩ := (ih hreach).resolve_left (fun h => h hpool)
    exact ⟨t, by rw [hthreads]; exact List.mem_append_left _ ht, hpending⟩
  rw [r.state_of_some hl] at hreach hpool
  have hallowed : Allowed e := r.makes_label makes_start hl
  have hbefore : (r.state n).db.pool.get? ip = none := by
    by_contra hne
    exact serve_keeps hallowed hne hreach hpool
  have hmem : (⟨t, .call e k, hist⟩ : Interleave.Thread _ _ _ _ _ _) ∈ (r.config n).threads := by rw [hold]; simp
  have hmem' : (⟨t, k (serve e (r.state n)).1, hist ++ [⟨r.state n, e, (serve e (r.state n)).1⟩]⟩ :
      Interleave.Thread _ _ _ _ _ _) ∈ (r.config (n + 1)).threads := by rw [hnew]; simp
  have hspec := r.thread_spec n _ hmem
  have hspec' := r.thread_spec (n + 1) _ hmem'
  have hprogress : (∃ ev ∈ hist ++ [⟨r.state n, e, (serve e (r.state n)).1⟩], AddsReachable ip ev) →
      (∀ ev ∈ hist, ¬UpdatesPool ip ev) → Pending r (n + 1) ip := by
    intro hadds hnone
    have hnone' : ∀ ev ∈ hist ++ [⟨r.state n, e, (serve e (r.state n)).1⟩], ¬UpdatesPool ip ev := by
      intro ev hev
      rcases List.mem_append.1 hev with hev | hev
      · exact hnone ev hev
      · rw [List.mem_singleton.1 hev]
        exact fun hupdates => hupdates.2 hpool
    refine ⟨_, hmem', ?_, hadds, hnone'⟩
    cases hk : k (serve e (r.state n)).1 with
    | call e' k' => exact ⟨e', k', rfl⟩
    | fail err => exact absurd hk (habort (n + 1) _ hmem' err)
    | ret response =>
      have hafter := hspec'.1
      simp only [hk] at hafter
      have hreply : ∀ ev ∈ hist ++ [⟨r.state n, e, (serve e (r.state n)).1⟩], ev.reply = (serve ev.call ev.state).1 := by
        intro ev hev
        obtain ⟨i, -, -, -, hs, hrep⟩ := hspec'.2.of_mem hev
        rw [hs]
        exact hrep
      obtain ⟨ev, hev, hadd⟩ := hadds
      obtain ⟨ev', hev', hupdates⟩ := updated_of_ended hafter hreply hev hadd
      exact absurd hupdates (hnone' ev' hev')
  by_cases hreachable : (r.state n).db.Reachable ip
  · obtain ⟨t', ht', hcall, hadds, hnone⟩ := (ih hreachable).resolve_left (fun h => h hbefore)
    rw [hold] at ht'
    rcases List.mem_append.1 ht' with h | h
    · exact ⟨t', by rw [hnew]; exact List.mem_append_left _ h, hcall, hadds, hnone⟩
    rcases List.mem_cons.1 h with rfl | h
    · obtain ⟨ev, hev, hadd⟩ := hadds
      exact hprogress ⟨ev, List.mem_append_left _ hev, hadd⟩ hnone
    · exact ⟨t', by rw [hnew]; exact List.mem_append_right _ (List.mem_cons_of_mem _ h), hcall, hadds, hnone⟩
  · -- The call adds the first reachable check of the IP: before it, its request has done nothing but insert.
    have hadd : AddsReachable ip ⟨r.state n, e, (serve e (r.state n)).1⟩ := adds_of_reachable hreachable hreach
    obtain ⟨stmts, hcall, stmt, hm, row, hrow, -⟩ := hadd.inserts
    refine hprogress ⟨_, List.mem_append_right _ (List.mem_singleton_self _), hadd⟩ fun ev hev => ?_
    obtain rfl : e = .batch stmts := hcall
    exact not_updates_of_inserts (inserts_first hspec.1 hm (by rw [hrow]; exact Option.some_ne_none _) ev hev) ip

/-- In every interleaving of requests none of which aborts, from a state in which every reachable IP is in the pool: an IP with a
reachable check is in the pool, or a request in progress has inserted such a check and not yet written its pool row. -/
theorem no_reachable_lost (r : Run start serve) (hstart : ∀ ip, (r.state 0).db.Reachable ip → (r.state 0).db.pool.get? ip ≠ none)
    (habort : ∀ n, ∀ t ∈ (r.config n).threads, ∀ e, t.prog ≠ .fail e) (n : Nat) (ip : String)
    (hreach : ∃ row ∈ (r.state n).db.checks.of ip, row.ok = true) :
    (r.state n).db.pool.get? ip ≠ none ∨ Pending r n ip := by
  induction n with
  | zero => exact Or.inl (hstart ip hreach)
  | succ n ih => exact pending_step habort ih hreach

/-- The first check is in `ip_checks` before its request has written the pool. -/
theorem no_reachable_lost_first : (firstRun.state 2).db.pool.get? "8.8.8.8" ≠ none ∨ Pending firstRun 2 "8.8.8.8" :=
  no_reachable_lost firstRun (by rintro ip ⟨row, hrow, -⟩; cases hrow)
    (fun n t ht => Prog.ne_fail (Run.scheduled_threads (P := fun t => t.prog.error? = none) rfl (by decide +kernel) n t ht)) 2
      "8.8.8.8"
    (by decide +kernel)

end Gwsdb.Web
