import Gwsdb.Lemmas.DnsQuery
import Gwsdb.Web.PtrResolve

/-!
# The browser's PTR lookups

Whatever pages are open and whenever results come: each page keeps as many lookups in flight as it may and answers every call
once, in order of the calls; every answer is that of a lookup of the IP that has not expired; and a page looks up an IP again only
an hour after it did so last. The names it asks for are those the server asks for.
-/

namespace Gwsdb.Web

open BoundedPool (Fair Pool)
open Gwsdb.Net (isIPAddress isIPv4 colon_notMem_of_isIPv4 isIPv4_octets)
open Keyed (Table)
open Transition (run)

/-! ## Steps -/

/-- What a step does to the pages: one is opened, asks, has a lookup ended, or writes. -/
theorem nextPtr_pages {P : PtrPage → Prop} {b b' : PtrBrowser} {a : PtrAct}
    (h : nextPtr b a = some b') (hold : ∀ p ∈ b.pages, P p)
    (hopen : P .opened) (hresolve : ∀ p ∈ b.pages, ∀ ip, P (p.resolvePTR b.stored b.now ip))
    (hfinish : ∀ p ∈ b.pages, ∀ k json p', p.finishJob b.stored b.now k json = some p' → P p')
    (hwrite : ∀ p ∈ b.pages, P (p.written b.stored b.now)) : ∀ p ∈ b'.pages, P p := by
  have hset : ∀ {i : Nat} {p' : PtrPage}, P p' → ∀ p ∈ b.pages.set i p', P p := by
    intro i p' hp' p hp
    rcases List.mem_or_eq_of_mem_set hp with hp | rfl
    · exact hold p hp
    · exact hp'
  cases a with
  | tick ms => cases h; exact hold
  | openPage =>
    cases h
    intro p hp
    rcases List.mem_append.1 hp with hp | hp
    · exact hold p hp
    · rw [List.mem_singleton.1 hp]
      exact hopen
  | resolve i ip =>
    obtain ⟨p, hget, rfl⟩ := Option.map_eq_some_iff.1 h
    exact hset (hresolve p (List.mem_of_getElem? hget) ip)
  | finish i k json =>
    obtain ⟨p, hget, h⟩ := Option.bind_eq_some_iff.1 h
    obtain ⟨p', hp', h⟩ := Option.bind_eq_some_iff.1 h
    cases h
    exact hset (hfinish p (List.mem_of_getElem? hget) k json p' hp')
  | write i taken =>
    obtain ⟨p, hget, h⟩ := Option.bind_eq_some_iff.1 h
    split at h
    · cases h
      exact hset (hwrite p (List.mem_of_getElem? hget))
    · cases h
  | clear => cases h; exact hold

namespace PtrPage

variable {p p' : PtrPage} {stored : Option PtrCache} {now k : Nat} {ip : String} {json : DoHJson}

/-- A call is answered out of the cache, or goes to the pool. -/
theorem resolvePTR_cases (p : PtrPage) (stored : Option PtrCache) (now : Nat) (ip : String) :
    (∃ e, p.cached stored now ip = some e ∧ p.resolvePTR stored now ip =
      { p with
        memCache := some (p.loadCache stored)
        calls := p.calls + 1
        hits := p.hits ++ [(⟨p.calls, ip⟩, e.toPtrAnswer, now)] }) ∨
    p.cached stored now ip = none ∧ p.resolvePTR stored now ip =
      { p with
        memCache := some (p.loadCache stored)
        calls := p.calls + 1
        asked := p.asked ++ [⟨p.calls, ip⟩]
        pool := p.pool.submit CONCURRENCY ⟨p.calls, ip⟩ } := by
  unfold resolvePTR
  cases h : p.cached stored now ip with
  | some e => exact Or.inl ⟨e, rfl, rfl⟩
  | none => exact Or.inr ⟨rfl, rfl⟩

/-- The end of a lookup of a running item. -/
theorem finishJob_cases (h : p.finishJob stored now k json = some p') :
    ∃ item, p.pool.running[k]? = some item ∧ p' =
      { p with
        memCache := some ((p.loadCache stored).put item.ip (PtrLookup.entry ⟨item.ip, json, now⟩))
        writeScheduled := true
        resolved := p.resolved ++ [(item, PtrLookup.answer ⟨item.ip, json, now⟩, now)]
        lookups := p.lookups ++ [⟨item.ip, json, now⟩]
        pool := p.pool.finish CONCURRENCY k } := by
  obtain ⟨item, hitem, rfl⟩ := Option.map_eq_some_iff.1 h
  exact ⟨item, hitem, rfl⟩

end PtrPage

/-! ## The pool -/

/-- The pool of a page runs as many lookups as it may, in order of the calls, and each call was answered out of
the cache or went to the pool. -/
structure PtrPage.Pooled (p : PtrPage) : Prop where
  fair : Fair CONCURRENCY p.asked (p.resolved.map (·.1)) p.pool
  numbered : (p.asked.map PtrItem.id).Pairwise (· < ·)
  called : (p.hits.map (fun h => h.1.id) ++ p.asked.map PtrItem.id).Perm (List.range p.calls)

/-- Asking for an IP keeps the pool's invariant. -/
theorem PtrPage.Pooled.resolvePTR {p : PtrPage} (h : p.Pooled) (stored : Option PtrCache) (now : Nat) (ip : String) :
    (p.resolvePTR stored now ip).Pooled := by
  have hbelow : ∀ n ∈ p.asked.map PtrItem.id, n < p.calls := fun n hn =>
    List.mem_range.1 (h.called.subset (List.mem_append_right _ hn))
  rcases p.resolvePTR_cases stored now ip with ⟨e, -, heq⟩ | ⟨-, heq⟩ <;> rw [heq]
  · refine ⟨h.fair, h.numbered, ?_⟩
    show ((p.hits ++ [((⟨p.calls, ip⟩ : PtrItem), e.toPtrAnswer, now)]).map (fun h => h.1.id) ++ p.asked.map PtrItem.id).Perm
      (List.range (p.calls + 1))
    rw [List.map_append, List.range_succ, List.append_assoc]
    refine (List.perm_append_comm.append_left _).trans ?_
    rw [← List.append_assoc]
    exact h.called.append_right _
  · refine ⟨h.fair.submit _, ?_, ?_⟩
    · show ((p.asked ++ [(⟨p.calls, ip⟩ : PtrItem)]).map PtrItem.id).Pairwise (· < ·)
      rw [List.map_append, List.pairwise_append]
      refine ⟨h.numbered, List.pairwise_singleton _ _, fun n hn m hm => ?_⟩
      rw [List.mem_singleton.1 hm]
      exact hbelow n hn
    · show (p.hits.map (fun h => h.1.id) ++ (p.asked ++ [(⟨p.calls, ip⟩ : PtrItem)]).map PtrItem.id).Perm
        (List.range (p.calls + 1))
      rw [List.map_append, List.range_succ, ← List.append_assoc]
      exact h.called.append_right _

/-- So does the end of a lookup. -/
theorem PtrPage.Pooled.finishJob {p p' : PtrPage} (h : p.Pooled) {stored : Option PtrCache} {now k : Nat} {json : DoHJson}
    (hp' : p.finishJob stored now k json = some p') : p'.Pooled := by
  obtain ⟨item, hitem, rfl⟩ := PtrPage.finishJob_cases hp'
  refine ⟨?_, h.numbered, h.called⟩
  have hended : (p.resolved ++ [(item, PtrLookup.answer ⟨item.ip, json, now⟩, now)]).map (·.1) =
      p.resolved.map (·.1) ++ [item] := by
    rw [List.map_append, List.map_singleton]
  rw [hended]
  exact h.fair.finish hitem

/-- In every run, for every page: each call, by its number, was answered out of the cache or went to the pool; at most
`CONCURRENCY` lookups are in flight, and fewer only when no call waits; the calls of the pool, in the order they were made, are
those started and then those that wait; and the started ones are, each once, those answered and those in flight. -/
theorem ptr_calls_answered_once {t : Nat} {acts : List PtrAct} {b : PtrBrowser} (hrun : run nextPtr (.started t) acts = some b)
    {p : PtrPage} (hp : p ∈ b.pages) :
    (p.hits.map (fun h => h.1.id) ++ p.asked.map PtrItem.id).Perm (List.range p.calls) ∧
      (p.asked.map PtrItem.id).Pairwise (· < ·) ∧
      p.pool.active = p.pool.running.length ∧ p.pool.active ≤ CONCURRENCY ∧ (p.pool.queue = [] ∨ p.pool.active = CONCURRENCY) ∧
      ∃ started, p.asked = started ++ p.pool.queue ∧ started.Perm (p.resolved.map (·.1) ++ p.pool.running) := by
  have hpooled : ∀ p ∈ b.pages, p.Pooled := by
    refine Transition.invariant (I := fun b : PtrBrowser => ∀ p ∈ b.pages, p.Pooled) (fun b a b' h hall => ?_) hrun nofun
    refine nextPtr_pages h hall ⟨BoundedPool.fair_empty _, List.Pairwise.nil, List.Perm.nil⟩ ?_ ?_ ?_
    · exact fun p hp ip => (hall p hp).resolvePTR _ _ ip
    · exact fun p hp k json p' hp' => (hall p hp).finishJob hp'
    · exact fun p hp => ⟨(hall p hp).fair, (hall p hp).numbered, (hall p hp).called⟩
  obtain ⟨⟨hcount, hle, hbusy, horder⟩, hnumbered, hcalled⟩ := hpooled p hp
  exact ⟨hcalled, hnumbered, hcount, hle, hbusy, horder⟩

/-- Two calls of one page, and the second lookup ends first. -/
def twoCalls : List PtrAct := [.openPage, .resolve 0 "8.8.8.8", .resolve 0 "8.8.4.4", .finish 0 1 none]

/-- Two IPs asked for, the first of them being looked up. -/
theorem ptr_calls_answered_once_two : ∃ p : PtrPage, p.asked.map (·.ip) = ["8.8.8.8", "8.8.4.4"] ∧
    p.pool.running.map (·.ip) = ["8.8.8.8"] ∧
    ∃ started, p.asked = started ++ p.pool.queue ∧ started.Perm (p.resolved.map (·.1) ++ p.pool.running) := by
  obtain ⟨-, -, -, -, -, horder⟩ := ptr_calls_answered_once
    (show run nextPtr (.started 0) twoCalls = some _ from rfl) List.mem_cons_self
  exact ⟨_, rfl, rfl, horder⟩

/-! ## The answers -/

/-- An entry is what a lookup of its IP left. -/
def Sourced (lookups : List PtrLookup) (ip : String) (e : PtrEntry) : Prop := ∃ l ∈ lookups, l.ip = ip ∧ l.entry = e

/-- The entries of a cache are what lookups left. -/
def CacheSourced (lookups : List PtrLookup) (c : PtrCache) : Prop := ∀ ip e, c.get? ip = some e → Sourced lookups ip e

/-- The lookups of all pages. -/
def PtrBrowser.lookups (b : PtrBrowser) : List PtrLookup := b.pages.flatMap (·.lookups)

/-- The answers of a page are those of lookups: out of the cache one that had not expired, otherwise the one that ended then. -/
structure PtrPage.Answers (lookups : List PtrLookup) (p : PtrPage) : Prop where
  memory : ∀ c, p.memCache = some c → CacheSourced lookups c
  hit : ∀ item ans t, (item, ans, t) ∈ p.hits → ∃ l ∈ lookups, l.ip = item.ip ∧ l.answer = ans ∧ l.moment ≤ t ∧ t < l.entry.exp
  live : ∀ item ans t, (item, ans, t) ∈ p.resolved → ∃ l ∈ lookups, l.ip = item.ip ∧ l.answer = ans ∧ l.moment = t

/-- The pages and the storage hold what lookups left, and those are of the past. -/
structure PtrBrowser.Answers (b : PtrBrowser) : Prop where
  past : ∀ l ∈ b.lookups, l.moment ≤ b.now
  stored : ∀ c, b.stored = some c → CacheSourced b.lookups c
  pages : ∀ p ∈ b.pages, p.Answers b.lookups

/-- An entry stays sourced as lookups are added. -/
theorem Sourced.mono {ls ls' : List PtrLookup} (hsub : ls ⊆ ls') {ip : String} {e : PtrEntry} (h : Sourced ls ip e) :
    Sourced ls' ip e := by
  obtain ⟨l, hl, hip, he⟩ := h
  exact ⟨l, hsub hl, hip, he⟩

/-- So do a page's answers. -/
theorem PtrPage.Answers.mono {ls ls' : List PtrLookup} (hsub : ls ⊆ ls') {p : PtrPage} (h : p.Answers ls) : p.Answers ls' where
  memory c hc ip e he := (h.memory c hc ip e he).mono hsub
  hit item ans t ht := by
    obtain ⟨l, hl, hl'⟩ := h.hit item ans t ht
    exact ⟨l, hsub hl, hl'⟩
  live item ans t ht := by
    obtain ⟨l, hl, hl'⟩ := h.live item ans t ht
    exact ⟨l, hsub hl, hl'⟩

/-- An element of a list is still there when one is replaced, or is the one replaced. -/
theorem mem_set_or {α : Type} {xs : List α} {x : α} (hx : x ∈ xs) (i : Nat) (y : α) : x ∈ xs.set i y ∨ xs[i]? = some x := by
  obtain ⟨j, hj, rfl⟩ := List.getElem_of_mem hx
  by_cases hij : i = j
  · subst hij
    exact Or.inr (List.getElem?_eq_getElem hj)
  · refine Or.inl (List.mem_iff_getElem.2 ⟨j, by rw [List.length_set]; exact hj, ?_⟩)
    exact List.getElem_set_ne hij _

/-- A page of a browser replaced by one with more lookups leaves all lookups. -/
theorem lookups_subset_set {b : PtrBrowser} {i : Nat} {p p' : PtrPage} (hget : b.pages[i]? = some p)
    (hsub : p.lookups ⊆ p'.lookups) :
    b.lookups ⊆ (b.pages.set i p').flatMap (·.lookups) := by
  intro l hl
  obtain ⟨q, hq, hlq⟩ := List.mem_flatMap.1 hl
  rcases mem_set_or hq i p' with hq | hq
  · exact List.mem_flatMap.2 ⟨q, hq, hlq⟩
  · rw [hget] at hq
    cases hq
    exact List.mem_flatMap.2 ⟨p', List.mem_set (List.getElem?_eq_some_iff.1 hget).1 _, hsub hlq⟩

/-- A step adds the lookup that has ended, if any. -/
theorem nextPtr_lookups {b b' : PtrBrowser} {a : PtrAct} (h : nextPtr b a = some b') :
    b.lookups ⊆ b'.lookups ∧ ∀ l ∈ b'.lookups, l ∈ b.lookups ∨ l.moment = b.now := by
  have hset : ∀ {i : Nat} {p p' : PtrPage}, b.pages[i]? = some p → ∀ ls : List PtrLookup, p'.lookups = p.lookups ++ ls →
      (∀ l ∈ ls, l.moment = b.now) → b.lookups ⊆ (b.pages.set i p').flatMap (·.lookups) ∧
        ∀ l ∈ (b.pages.set i p').flatMap (·.lookups), l ∈ b.lookups ∨ l.moment = b.now := by
    intro i p p' hget ls heq hls
    refine ⟨lookups_subset_set hget (by rw [heq]; exact List.subset_append_left _ _), fun l hl => ?_⟩
    obtain ⟨q, hq, hlq⟩ := List.mem_flatMap.1 hl
    rcases List.mem_or_eq_of_mem_set hq with hq | rfl
    · exact Or.inl (List.mem_flatMap.2 ⟨q, hq, hlq⟩)
    rw [heq] at hlq
    rcases List.mem_append.1 hlq with hlq | hlq
    · exact Or.inl (List.mem_flatMap.2 ⟨p, List.mem_of_getElem? hget, hlq⟩)
    · exact Or.inr (hls l hlq)
  cases a with
  | tick ms => cases h; exact ⟨List.Subset.refl _, fun l hl => Or.inl hl⟩
  | openPage =>
    cases h
    have hsame : PtrBrowser.lookups { b with pages := b.pages ++ [PtrPage.opened] } = b.lookups := by
      show (b.pages ++ [PtrPage.opened]).flatMap (·.lookups) = b.lookups
      rw [List.flatMap_append]
      exact List.append_nil _
    rw [hsame]
    exact ⟨List.Subset.refl _, fun l hl => Or.inl hl⟩
  | resolve i ip =>
    obtain ⟨p, hget, rfl⟩ := Option.map_eq_some_iff.1 h
    refine hset hget [] ?_ nofun
    rcases p.resolvePTR_cases b.stored b.now ip with ⟨e, -, heq⟩ | ⟨-, heq⟩ <;> rw [heq] <;> exact (List.append_nil _).symm
  | finish i k json =>
    obtain ⟨p, hget, h⟩ := Option.bind_eq_some_iff.1 h
    obtain ⟨p', hp', h⟩ := Option.bind_eq_some_iff.1 h
    cases h
    obtain ⟨item, -, rfl⟩ := PtrPage.finishJob_cases hp'
    refine hset hget _ rfl fun l hl => ?_
    rw [List.mem_singleton.1 hl]
  | write i taken =>
    obtain ⟨p, hget, h⟩ := Option.bind_eq_some_iff.1 h
    split at h
    · cases h
      exact hset hget [] (List.append_nil _).symm nofun
    · cases h
  | clear => cases h; exact ⟨List.Subset.refl _, fun l hl => Or.inl hl⟩

/-- The clock never goes back. -/
theorem nextPtr_now {b b' : PtrBrowser} {a : PtrAct} (h : nextPtr b a = some b') : b.now ≤ b'.now := by
  cases a with
  | tick ms => cases h; exact Nat.le_add_right _ _
  | openPage => cases h; exact le_refl _
  | resolve i ip =>
    obtain ⟨p, -, rfl⟩ := Option.map_eq_some_iff.1 h
    exact le_refl _
  | finish i k json =>
    obtain ⟨p, -, h⟩ := Option.bind_eq_some_iff.1 h
    obtain ⟨p', -, h⟩ := Option.bind_eq_some_iff.1 h
    cases h
    exact le_refl _
  | write i taken =>
    obtain ⟨p, -, h⟩ := Option.bind_eq_some_iff.1 h
    split at h
    · cases h
      exact le_refl _
    · cases h
  | clear => cases h; exact le_refl _

/-- What a page reads of a cache is what lookups left. -/
theorem PtrPage.Answers.loadCache {ls : List PtrLookup} {p : PtrPage} (h : p.Answers ls) {stored : Option PtrCache}
    (hstored : ∀ c, stored = some c → CacheSourced ls c) : CacheSourced ls (p.loadCache stored) := by
  unfold PtrPage.loadCache
  cases hm : p.memCache with
  | some c => exact h.memory c hm
  | none =>
    cases stored with
    | some c => exact hstored c rfl
    | none => exact nofun

/-- Asking for an IP answers from the cache what was looked up. -/
theorem PtrPage.Answers.resolvePTR {ls : List PtrLookup} {p : PtrPage} (h : p.Answers ls) {stored : Option PtrCache} {now : Nat}
    (hpast : ∀ l ∈ ls, l.moment ≤ now) (hstored : ∀ c, stored = some c → CacheSourced ls c) (ip : String) :
    (p.resolvePTR stored now ip).Answers ls := by
  have hload := h.loadCache hstored
  have hmemory : ∀ c, some (p.loadCache stored) = some c → CacheSourced ls c := by
    intro c hc
    cases hc
    exact hload
  rcases p.resolvePTR_cases stored now ip with ⟨e, hcached, heq⟩ | ⟨-, heq⟩ <;> rw [heq]
  · refine ⟨hmemory, fun item ans t ht => ?_, h.live⟩
    rcases List.mem_append.1 ht with ht | ht
    · exact h.hit item ans t ht
    · cases List.mem_singleton.1 ht
      obtain ⟨hget, hexp⟩ := Option.filter_eq_some_iff.1 hcached
      obtain ⟨l, hl, hip, rfl⟩ := hload ip e hget
      exact ⟨l, hl, hip, rfl, hpast l hl, of_decide_eq_true hexp⟩
  · exact ⟨hmemory, h.hit, h.live⟩

/-- The end of a lookup answers what it looked up. -/
theorem PtrPage.Answers.finishJob {ls ls' : List PtrLookup} {p p' : PtrPage} (h : p.Answers ls) {stored : Option PtrCache}
    {now k : Nat} {json : DoHJson} (hstored : ∀ c, stored = some c → CacheSourced ls c) (hsub : ls ⊆ ls')
    (hp' : p.finishJob stored now k json = some p') (hls : p'.lookups ⊆ ls') : p'.Answers ls' := by
  have hload := h.loadCache hstored
  obtain ⟨item, -, rfl⟩ := PtrPage.finishJob_cases hp'
  have hnew : (⟨item.ip, json, now⟩ : PtrLookup) ∈ ls' := hls (List.mem_append_right _ (List.mem_singleton_self _))
  refine ⟨?_, (h.mono hsub).hit, fun item' ans t ht => ?_⟩
  · rintro c ⟨⟩
    exact Table.forall_put (fun ip e he => (hload ip e he).mono hsub) ⟨_, hnew, rfl, rfl⟩
  · rcases List.mem_append.1 ht with ht | ht
    · exact (h.mono hsub).live item' ans t ht
    · cases List.mem_singleton.1 ht
      exact ⟨_, hnew, rfl, rfl, rfl⟩

/-- A part of a sourced cache is sourced. -/
theorem CacheSourced.filter {ls : List PtrLookup} {c : PtrCache} (h : CacheSourced ls c) (keep : String → PtrEntry → Bool) :
    CacheSourced ls (c.filter keep) := fun ip e he => h ip e (Table.get?_of_filter he)

/-- Writing the cache keeps it sourced. -/
theorem PtrPage.Answers.written {ls : List PtrLookup} {p : PtrPage} (h : p.Answers ls) {stored : Option PtrCache}
    (hstored : ∀ c, stored = some c → CacheSourced ls c) (now : Nat) : (p.written stored now).Answers ls where
  memory := by
    rintro c ⟨⟩
    exact (h.loadCache hstored).filter _
  hit := h.hit
  live := h.live

/-- Every step keeps answers to what lookups found. -/
theorem PtrBrowser.Answers.next {b b' : PtrBrowser} {a : PtrAct} (h : nextPtr b a = some b') (hb : b.Answers) : b'.Answers := by
  obtain ⟨hsub, hnew⟩ := nextPtr_lookups h
  have hnow := nextPtr_now h
  have hstored : ∀ c, b'.stored = some c → CacheSourced b.lookups c := by
    cases a with
    | tick ms => cases h; exact hb.stored
    | openPage => cases h; exact hb.stored
    | resolve i ip =>
      obtain ⟨p, -, rfl⟩ := Option.map_eq_some_iff.1 h
      exact hb.stored
    | finish i k json =>
      obtain ⟨p, -, h⟩ := Option.bind_eq_some_iff.1 h
      obtain ⟨p', -, h⟩ := Option.bind_eq_some_iff.1 h
      cases h
      exact hb.stored
    | write i taken =>
      obtain ⟨p, hget, h⟩ := Option.bind_eq_some_iff.1 h
      split at h
      · cases h
        intro c hc
        cases taken with
        | false => exact hb.stored c hc
        | true =>
          cases hc
          exact ((hb.pages p (List.mem_of_getElem? hget)).loadCache hb.stored).filter _
      · cases h
    | clear => cases h; exact nofun
  refine ⟨fun l hl => ?_, fun c hc ip e he => (hstored c hc ip e he).mono hsub, ?_⟩
  · rcases hnew l hl with hl | hl
    · exact (hb.past l hl).trans hnow
    · exact hl.le.trans hnow
  · have hpages : ∀ p ∈ b'.pages, p.lookups ⊆ b'.lookups → p.Answers b'.lookups := by
      refine nextPtr_pages h ?_ ?_ ?_ ?_ ?_
      · exact fun p hp _ => (hb.pages p hp).mono hsub
      · exact fun _ => ⟨nofun, nofun, nofun⟩
      · exact fun p hp ip _ => ((hb.pages p hp).resolvePTR hb.past hb.stored ip).mono hsub
      · exact fun p hp k json p' hp' hls => (hb.pages p hp).finishJob hb.stored hsub hp' hls
      · exact fun p hp _ => ((hb.pages p hp).written hb.stored b.now).mono hsub
    exact fun p hp => hpages p hp fun l hl => List.mem_flatMap.2 ⟨p, hp, hl⟩

/-- In every run over any number of pages and writes of the storage that is kept, lost or refused: an answer out of the cache is
the one some page's lookup of that IP came to, at most the larger of its TTL and an hour ago; any other answer is the one the
lookup of that IP came to when it was given. -/
theorem ptr_answers_looked_up {t₀ : Nat} {acts : List PtrAct} {b : PtrBrowser} (hrun : run nextPtr (.started t₀) acts = some b)
    {p : PtrPage} (hp : p ∈ b.pages) :
    (∀ item ans t, (item, ans, t) ∈ p.hits → ∃ q ∈ b.pages, ∃ l ∈ q.lookups, l.ip = item.ip ∧ l.answer = ans ∧ l.moment ≤ t ∧
      t < l.moment + max (resolveLive l.ip l.json).ttlSeconds MIN_TTL_SECONDS * 1000) ∧
    ∀ item ans t, (item, ans, t) ∈ p.resolved → ∃ q ∈ b.pages, ∃ l ∈ q.lookups, l.ip = item.ip ∧
        l.answer = ans ∧ l.moment = t := by
  have hb : b.Answers := Transition.invariant (I := PtrBrowser.Answers) (fun _ _ _ h hb => hb.next h) hrun ⟨nofun, nofun, nofun⟩
  refine ⟨fun item ans t ht => ?_, fun item ans t ht => ?_⟩
  · obtain ⟨l, hl, hip, hans, hmoment, hexp⟩ := (hb.pages p hp).hit item ans t ht
    obtain ⟨q, hq, hlq⟩ := List.mem_flatMap.1 hl
    exact ⟨q, hq, l, hlq, hip, hans, hmoment, hexp⟩
  · obtain ⟨l, hl, hip, hans, hmoment⟩ := (hb.pages p hp).live item ans t ht
    obtain ⟨q, hq, hlq⟩ := List.mem_flatMap.1 hl
    exact ⟨q, hq, l, hlq, hip, hans, hmoment⟩

/-- A page asks for an IP, its lookup fails, and half an hour later the page asks again. -/
def askedTwice : List PtrAct := [.openPage, .resolve 0 "8.8.8.8", .finish 0 0 none, .tick 1800000, .resolve 0 "8.8.8.8"]

/-- A second page takes its answer from what the first looked up, half an hour later. -/
theorem ptr_answers_looked_up_twice : ∃ item : PtrItem, ∃ l :
    PtrLookup, item.ip = "8.8.8.8" ∧ l.ip = item.ip ∧ l.answer = ⟨[], false⟩ ∧
    l.moment ≤ 1800000 ∧ 1800000 < l.moment + max (resolveLive l.ip l.json).ttlSeconds MIN_TTL_SECONDS * 1000 := by
  obtain ⟨hhits, -⟩ := ptr_answers_looked_up (show run nextPtr (.started 0) askedTwice = some _ from rfl) List.mem_cons_self
  obtain ⟨-, -, l, -, h⟩ := hhits ⟨1, "8.8.8.8"⟩ ⟨[], false⟩ 1800000 List.mem_cons_self
  exact ⟨⟨1, "8.8.8.8"⟩, l, rfl, h⟩

/-! ## One lookup an hour -/

/-- For each lookup of the last hour, the page's copy of the cache has an entry that lasts until the hour is over. -/
def PtrPage.Remembers (now : Nat) (p : PtrPage) : Prop :=
  ∀ l ∈ p.lookups, now < l.moment + MIN_TTL_SECONDS * 1000 →
    ∃ c e, p.memCache = some c ∧ c.get? l.ip = some e ∧ l.moment + MIN_TTL_SECONDS * 1000 ≤ e.exp

/-- A loaded cache holds the answer of every lookup of the last hour. -/
theorem PtrPage.Remembers.loadCache {now : Nat} {p : PtrPage} (h : p.Remembers now) (stored : Option PtrCache) {l : PtrLookup}
    (hl : l ∈ p.lookups) (hnow : now < l.moment + MIN_TTL_SECONDS * 1000) :
    ∃ e, (p.loadCache stored).get? l.ip = some e ∧ l.moment + MIN_TTL_SECONDS * 1000 ≤ e.exp := by
  obtain ⟨c, e, hc, he, hexp⟩ := h l hl hnow
  refine ⟨e, ?_, hexp⟩
  unfold PtrPage.loadCache
  rw [hc]
  exact he

/-- What is remembered now is remembered later. -/
theorem PtrPage.Remembers.mono {now now' : Nat} {p : PtrPage} (hle : now ≤ now') (h : p.Remembers now) : p.Remembers now' :=
  fun l hl hnow => h l hl (hle.trans_lt hnow)

/-- Asking for an IP forgets no lookup. -/
theorem PtrPage.Remembers.resolvePTR {now : Nat} {p : PtrPage} (h : p.Remembers now) (stored : Option PtrCache) (ip : String) :
    (p.resolvePTR stored now ip).Remembers now := by
  intro l hl hnow
  rcases p.resolvePTR_cases stored now ip with ⟨e, -, heq⟩ | ⟨-, heq⟩ <;> rw [heq] at hl ⊢
  all_goals
    obtain ⟨e, he, hexp⟩ := h.loadCache stored hl hnow
    exact ⟨_, e, rfl, he, hexp⟩

/-- The end of a lookup remembers it. The new entry lasts an hour from now, no less than what is left of the hour of
an older lookup. -/
theorem PtrPage.Remembers.finishJob {now k : Nat} {p p' : PtrPage} (h : p.Remembers now) (hpast : ∀ l ∈ p.lookups, l.moment ≤ now)
    {stored : Option PtrCache} {json : DoHJson} (hp' : p.finishJob stored now k json = some p') : p'.Remembers now := by
  obtain ⟨item, -, rfl⟩ := PtrPage.finishJob_cases hp'
  have hnew : now + MIN_TTL_SECONDS * 1000 ≤ (PtrLookup.entry ⟨item.ip, json, now⟩).exp :=
    Nat.add_le_add_left (Nat.mul_le_mul_right _ (le_max_right _ _)) _
  intro l hl hnow
  have hmoment : l.moment ≤ now := by
    rcases List.mem_append.1 hl with hl | hl
    · exact hpast l hl
    · rw [List.mem_singleton.1 hl]
  by_cases hip : l.ip = item.ip
  · refine ⟨_, _, rfl, ?_, (Nat.add_le_add_right hmoment _).trans hnew⟩
    rw [Table.get?_put, if_pos hip]
  · rcases List.mem_append.1 hl with hl | hl
    · obtain ⟨e, he, hexp⟩ := h.loadCache stored hl hnow
      refine ⟨_, e, rfl, ?_, hexp⟩
      rw [Table.get?_put, if_neg hip]
      exact he
    · rw [List.mem_singleton.1 hl] at hip
      exact absurd rfl hip

/-- Writing the cache forgets no lookup. -/
theorem PtrPage.Remembers.written {now : Nat} {p : PtrPage} (h : p.Remembers now) (stored : Option PtrCache) :
    (p.written stored now).Remembers now := by
  intro l hl hnow
  obtain ⟨e, he, hexp⟩ := h.loadCache stored hl hnow
  refine ⟨_, e, rfl, ?_, hexp⟩
  unfold PtrPage.pruned
  rw [Table.get?_filter, he]
  exact Option.filter_eq_some_iff.2 ⟨rfl, decide_eq_true (hnow.trans_le hexp)⟩

/-- In every run, a page that has looked up an IP answers for it out of its cache for an hour: a call goes to the pool only when
all the lookups of that IP the page has made are an hour old. -/
theorem ptr_asks_hourly {t₀ : Nat} {acts : List PtrAct} {b : PtrBrowser} (hrun : run nextPtr (.started t₀) acts = some b)
    {p : PtrPage} (hp : p ∈ b.pages) {ip : String} (hasks : (p.resolvePTR b.stored b.now ip).asked ≠ p.asked) :
    ∀ l ∈ p.lookups, l.ip = ip → l.moment + MIN_TTL_SECONDS * 1000 ≤ b.now := by
  have hb : b.Answers ∧ ∀ p ∈ b.pages, p.Remembers b.now := by
    refine Transition.invariant (I := fun b : PtrBrowser => b.Answers ∧ ∀ p ∈ b.pages, p.Remembers b.now) ?_ hrun
      ⟨⟨nofun, nofun, nofun⟩, nofun⟩
    rintro b a b' h ⟨hb, hall⟩
    refine ⟨hb.next h, ?_⟩
    have hpages : ∀ p ∈ b'.pages, p.Remembers b.now := by
      refine nextPtr_pages h hall nofun ?_ ?_ ?_
      · exact fun p hp ip => (hall p hp).resolvePTR _ ip
      · intro p hp k json p' hp'
        exact (hall p hp).finishJob (fun l hl => hb.past l (List.mem_flatMap.2 ⟨p, hp, hl⟩)) hp'
      · exact fun p hp => (hall p hp).written _
    exact fun p hp => (hpages p hp).mono (nextPtr_now h)
  rintro l hl rfl
  by_contra hlt
  obtain ⟨e, he, hexp⟩ := (hb.2 p hp).loadCache b.stored hl (Nat.lt_of_not_le hlt)
  have hcached : p.cached b.stored b.now l.ip = some e :=
    Option.filter_eq_some_iff.2 ⟨he, decide_eq_true ((Nat.lt_of_not_le hlt).trans_le hexp)⟩
  rcases p.resolvePTR_cases b.stored b.now l.ip with ⟨e', -, heq⟩ | ⟨hnone, -⟩
  · rw [heq] at hasks
    exact hasks rfl
  · rw [hcached] at hnone
    cases hnone

/-- Two hours after its lookup, a page asks for an IP again. -/
theorem ptr_asks_hourly_twice : ∃ p : PtrPage, p.lookups.map (·.ip) = ["8.8.8.8"] ∧
    ∀ l ∈ p.lookups, l.ip = "8.8.8.8" → l.moment + MIN_TTL_SECONDS * 1000 ≤ 7200000 := by
  have hrun : run nextPtr (.started 0) [.openPage, .resolve 0 "8.8.8.8", .finish 0 0 none, .tick 7200000] = some _ := rfl
  refine ⟨_, ?_, ptr_asks_hourly hrun List.mem_cons_self (by decide)⟩
  rfl

/-! ## The names -/

/-- The groups of a text are read as the server reads them, where it accepts the text. -/
theorem ptrResolve_expandIPv6 {ip hex : List Char} (h : Net.expandIPv6 ip = some hex) : PtrResolve.expandIPv6 ip = some hex := by
  unfold Net.expandIPv6 at h
  split at h
  · cases h
  rename_i hzone
  obtain ⟨groups, hgroups, h⟩ := Option.bind_eq_some_iff.1 h
  split at h
  · rename_i hall
    cases h
    have hcut : ip.takeWhile (· ≠ '%') = ip := by
      refine List.takeWhile_eq_self_iff.2 fun c hc => decide_eq_true ?_
      rintro rfl
      exact hzone hc
    have hread : PtrResolve.groupsOf ip = some groups := by
      unfold Net.groupsOf at hgroups
      unfold PtrResolve.groupsOf
      cases hdouble : Net.cutDouble ip with
      | none =>
        simp only [hdouble] at hgroups ⊢
        exact hgroups
      | some cut =>
        simp only [hdouble] at hgroups ⊢
        split at hgroups
        · cases hgroups
        · exact hgroups
    have hloose : (groups.all fun g => g.length ≤ 4 && g.all (JsNumber.isDigit 16)) = true := by
      refine List.all_eq_true.2 fun g hg => ?_
      have hgroup := List.all_eq_true.1 hall g hg
      unfold Net.isGroup at hgroup
      rw [Bool.and_assoc, Bool.and_eq_true] at hgroup
      exact hgroup.2
    unfold PtrResolve.expandIPv6
    rw [hcut, hread, Option.bind_some, if_pos hloose]
  · cases h

/-- For every address the server accepts, the browser asks for the PTR name the server asks for. -/
theorem ptr_names_agree {ip : List Char} (h : isIPAddress ip = true) :
    ∃ name, Net.reverseName ip = .ok name ∧ PtrResolve.reverseName ip = some name := by
  refine ⟨_, Net.reverseName_eq h, ?_⟩
  by_cases hv4 : isIPv4 ip = true
  · obtain ⟨hlength, -⟩ := isIPv4_octets hv4
    have hdot : '.' ∈ ip := by
      by_contra hm
      rw [List.splitOn_eq_singleton hm] at hlength
      cases hlength
    obtain ⟨a, b, c, d, hsplit⟩ := List.length_eq_four.1 hlength
    rw [PtrResolve.reverseName, if_pos ⟨hdot, colon_notMem_of_isIPv4 hv4⟩, Net.labelsOf_ipv4 hv4, hsplit]
    simp [List.intercalate]
  · obtain ⟨hex, hx⟩ := Net.expandIPv6_of_isIPAddress h hv4
    have hcolon := (Net.expandIPv6_spec hx).2.2
    have hserver := Net.reverseName_eq h
    rw [Net.reverseName, if_neg fun hboth => hboth.2 hcolon, hx] at hserver
    rw [PtrResolve.reverseName, if_neg fun hboth => hboth.2 hcolon, ptrResolve_expandIPv6 hx, Option.map_some]
    exact congrArg some (Except.ok.inj hserver)

/-- Both write one name for an address of Google's. -/
theorem ptr_names_agree_google : ∃ name, Net.reverseName "2001:4860::8888".toList = .ok name ∧
    PtrResolve.reverseName "2001:4860::8888".toList = some name := ptr_names_agree (by decide +kernel)

end Gwsdb.Web
