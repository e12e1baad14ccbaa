import Gwsdb.Lemmas.Gates
import Gwsdb.Lemmas.Submissions
import Gwsdb.Lib.Schedule
import Gwsdb.Theorems.ProbeEvidence
import Gwsdb.Theorems.Quota

/-!
# Probes on demand

Visitors' requests run beside each other and beside all the other tasks of the site, and share the limiter, `asn_cache` and the
tables. In every run the probe server is asked only about addresses that a live lookup called Google's, or whose prefix in the
cache one did, within its TTL (`probe_gated`); a client has at most ten probes a minute, apart from those whose requests raced in
the limiter (`probes_within_quota`); and what a request stores is the verdict a probe of its address reached, and about no other
address (`check_stores_verdict`).
-/

namespace Gwsdb.Gate

open Gwsdb.Net (IPRange ipToHex prefixToRange)
open Gwsdb.Recheck (probeProxy_result probed_of_probeOnce)
open Gwsdb.Store
open Gwsdb.Web (ASNCacheEntry ASNCacheRow ASNInfo clampTTL emptySite getASN get?_saveASN_row
  isGoogleASN normalize passes selectASN
  selectASN_some)
open Interleave (Prog Run)
open Keyed (Table)

variable {d : Deployment} (r : Run (visit d.caseData) (answerGate d))

/-! ## What the lookups have told -/

/-- Before a moment a live lookup of an address told of a network of Google's. -/
def ToldGoogle (n : Nat) (ip : String) (info : ASNInfo) (ttlSeconds : Nat) : Prop :=
  ∃ i < n, r.label i = some (.lookupASN ip (.ok (info, ttlSeconds, true))) ∧ isGoogleASN info = true

/-- Before a moment an entry was saved as such a lookup told it. -/
def SavedGoogle (n : Nat) (e : ASNCacheEntry) : Prop :=
  ∃ k < n, r.label k = some (.saveASN e true) ∧
    ∃ ttlSeconds, ToldGoogle r k e.ip e.toASNInfo ttlSeconds ∧ e.ttlSeconds = clampTTL ttlSeconds

/-- The prefix of an entry contains an address. -/
def Covers (e : ASNCacheEntry) (ip : String) : Prop :=
  ∃ range point, prefixToRange e.announced.toList = some range ∧ ipToHex ip.toList = some point ∧
    range.isIPv6 = decide (':' ∈ ip.toList) ∧ range.start ≤ point ∧ point ≤ range.end

/-- An address was told to be Google's: itself, or as one of a saved prefix, no longer ago than its TTL. -/
def KnownGoogle (n : Nat) (ip : String) (readAt : Int) : Prop :=
  (∃ info ttlSeconds, ToldGoogle r n ip info ttlSeconds) ∨
    ∃ e, SavedGoogle r n e ∧ Covers e ip ∧ readAt - e.checkedAt ≤ e.ttlSeconds * 1000

/-- A row of the table is a saved entry. -/
structure RowOf (e : ASNCacheEntry) (key : String) (row : ASNCacheRow) : Prop where
  announced : key = e.announced
  range : prefixToRange key.toList = some row.range
  ttlSeconds : row.ttlSeconds = e.ttlSeconds
  checkedAt : row.checkedAt = e.checkedAt

variable {r}

/-- What the run was told it was told later as well. -/
theorem ToldGoogle.mono {m n : Nat} (h : m ≤ n) {ip : String} {info : ASNInfo} {ttlSeconds : Nat}
    (ht : ToldGoogle r m ip info ttlSeconds) :
    ToldGoogle r n ip info ttlSeconds := by
  obtain ⟨i, hi, hlabel, hg⟩ := ht
  exact ⟨i, hi.trans_le h, hlabel, hg⟩

/-- So is what it saved. -/
theorem SavedGoogle.mono {m n : Nat} (h : m ≤ n) {e : ASNCacheEntry} (hs : SavedGoogle r m e) : SavedGoogle r n e := by
  obtain ⟨k, hk, hsaved⟩ := hs
  exact ⟨k, hk.trans_le h, hsaved⟩

/-- A live lookup among the calls a thread has made was made at a moment of the run. -/
theorem toldGoogle_of_mem {m n : Nat} {hist : List GateEvent} (hrec : r.Recorded m n hist) {s : Backend}
    {ip : String} {live : LiveAnswer}
    {info : ASNInfo} {ttlSeconds : Nat} (h : ⟨s, .lookupASN ip live, .ok (info, ttlSeconds, true)⟩ ∈ hist)
    (hg : isGoogleASN info = true) : ToldGoogle r n ip info ttlSeconds := by
  obtain ⟨i, -, hi, hlabel, -, hreply⟩ := hrec.of_mem h
  obtain rfl : Except.ok (info, ttlSeconds, true) = live := hreply
  exact ⟨i, hi, hlabel, hg⟩

/-- The rows of the table are saved entries. -/
theorem rows_saved (h0 : (r.state 0).asn = Table.empty) (n : Nat) {announced : String} {row : ASNCacheRow}
    (hrow : (r.state n).asn.get? announced = some row) : ∃ e, SavedGoogle r n e ∧ RowOf e announced row := by
  induction n generalizing announced row with
  | zero =>
    rw [h0, Table.get?_empty] at hrow
    cases hrow
  | succ n ih =>
    have hold : (r.state n).asn.get? announced = some row → ∃ e, SavedGoogle r (n + 1) e ∧ RowOf e announced row := by
      intro h
      obtain ⟨e, he, hof⟩ := ih h
      exact ⟨e, he.mono n.le_succ, hof⟩
    cases hl : r.label n with
    | none =>
      rw [r.state_of_none hl] at hrow
      exact hold hrow
    | some e =>
      rw [r.state_of_some hl] at hrow
      cases e with
      | saveASN e stored =>
        cases stored with
        | false => exact hold hrow
        | true =>
          rcases get?_saveASN_row hrow with h | ⟨rfl, -, -, httl, hchecked, hrange⟩
          · exact hold h
          · obtain ⟨t, -, hrec, hallowed⟩ := r.follows_label (visit_allowed d.caseData) hl
            generalize t.task = v at hallowed
            cases hallowed with
            | saves _ _ _ _ hfound =>
              obtain ⟨s, live, ttlSeconds, hmem, hclamp⟩ := hfound.found
              refine ⟨e, ⟨n, n.lt_succ_self, hl, ttlSeconds, toldGoogle_of_mem hrec hmem hfound.google, hclamp⟩, rfl, ?_, httl,
                hchecked⟩
              rcases hrange with hnew | ⟨old, hget, heq⟩
              · exact hnew
              · rw [heq]
                obtain ⟨old', -, hof⟩ := ih hget
                exact hof.range
      | store e => exact hold hrow
      | pruneWindows call => exact hold hrow
      | windowCount call => exact hold hrow
      | countCall call => exact hold hrow
      | getASN ip now => exact hold hrow
      | lookupASN ip live => exact hold hrow
      | probe ip j => exact hold hrow

/-- An address that the cache answers for lies in a saved prefix, within its TTL. -/
theorem knownGoogle_of_getASN (h0 : (r.state 0).asn = Table.empty) {n : Nat} {ip : String} {now : Int} {cached : ASNCacheEntry}
    (h : getASN (r.state n).asn ip now = some cached) : KnownGoogle r n ip now := by
  unfold getASN at h
  obtain ⟨point, hpoint, h⟩ := Option.bind_eq_some_iff.1 h
  obtain ⟨⟨announced, row⟩, hselect, h⟩ := Option.bind_eq_some_iff.1 h
  obtain ⟨hrow, hfamily, hstart, hend⟩ := selectASN_some hselect
  obtain ⟨e, hsaved, rfl, hrange, httl, hchecked⟩ := rows_saved h0 n hrow
  split at h
  · cases h
  · rename_i hfresh
    refine Or.inr ⟨e, hsaved, ⟨row.range, point, hrange, hpoint, hfamily, hstart, hend⟩, ?_⟩
    rw [← httl, ← hchecked]
    exact not_lt.1 hfresh

/-- A passed gate rests on a prefix that is known. -/
theorem knownGoogle_of_passed (h0 : (r.state 0).asn = Table.empty) {n : Nat} {hist : List GateEvent} (hrec : r.Recorded 0 n hist)
    {ip : String} {l : Lookup} (h : PassedASN ip l hist) : KnownGoogle r n ip l.readAt := by
  cases h with
  | cached s e hmem hpasses =>
    obtain ⟨i, -, hi, -, -, hreply⟩ := hrec.of_mem hmem
    rcases knownGoogle_of_getASN h0 hreply.symm with ⟨info, ttlSeconds, htold⟩ | ⟨e', hsaved, hcovers⟩
    · exact Or.inl ⟨info, ttlSeconds, htold.mono hi.le⟩
    · exact Or.inr ⟨e', hsaved.mono hi.le, hcovers⟩
  | live s info ttlSeconds hmem hgoogle => exact Or.inl ⟨info, ttlSeconds, toldGoogle_of_mem hrec hmem hgoogle⟩

/-! ## The gates -/

variable (r)

/-- In every run that begins with an empty cache: an address that the probe server is asked about is that of a request from China
whose client the limiter let pass and counted before, and it was known to be Google's. -/
theorem probe_gated (h0 : (r.state 0).asn = Table.empty) {n : Nat} {ip : String} {j : Recheck.Journey}
    (h : r.label n = some (.probe ip j)) :
    ∃ t ∈ (r.config n).threads, ∃ q : CheckRequest, t.task = .check q ∧ q.journey = j ∧
      q.country = "CN" ∧ normalize q.ip = some ip ∧
      q.clientIP ≠ "" ∧
      (∃ i < n, r.label i = some (.windowCount q.limit) ∧ (windowCount (r.state i).limits q.limit).getD 0 < 10) ∧
      (∃ i < n, r.label i = some (.countCall q.limit)) ∧ KnownGoogle r n ip q.lookup.readAt := by
  obtain ⟨t, ht, hrec, hallowed⟩ := r.follows_label (visit_allowed d.caseData) h
  generalize htask : t.task = v at hallowed
  cases hallowed with
  | probes q _ _ hgated hfirst =>
    obtain ⟨⟨s, count, hread, hroom⟩, ⟨s', hcounted⟩⟩ := hgated.granted
    obtain ⟨i, -, hi, hlabel, -, hreply⟩ := hrec.of_mem hread
    obtain ⟨i', -, hi', hlabel', -, -⟩ := hrec.of_mem hcounted
    obtain rfl : count = windowCount (r.state i).limits q.limit := hreply
    exact ⟨t, ht, q, htask, rfl, hgated.country, hgated.address, hgated.client, ⟨i, hi, hlabel, Int.ofNat_lt.1 hroom⟩,
      ⟨i', hi', hlabel'⟩, knownGoogle_of_passed h0 hrec hgated.google⟩

/-! ## The quota -/

/-- With no other statement in between, those of `checkRateLimit` do what the limiter alone does. -/
theorem run_tryRateLimit (d : Deployment) (call : RateLimitCall) (b : Backend) : (tryRateLimit 3 call).run (answerGate d) b =
    (.ok (.ok (answerCall rateLimits b.limits call).1), { b with limits := (answerCall rateLimits b.limits call).2 }) := by
  show Prog.run (answerGate d) (countIfRoom 3 call (windowCount (pruneWindows b.limits call) call)) _ = _
  by_cases hfull : (rateLimits call.kind).limit ≤ ((windowCount (pruneWindows b.limits call) call).getD 0 : Int)
  · have halone : answerCall rateLimits b.limits call = (false, pruneWindows b.limits call) := if_pos hfull
    rw [countIfRoom, if_pos hfull, halone]
    rfl
  · have halone : answerCall rateLimits b.limits call = (true, countCall (pruneWindows b.limits call) call) := if_neg hfull
    rw [countIfRoom, if_neg hfull, halone]
    rfl

/-- The moment makes the `INSERT` of a call in a window. -/
def counts (c : (RateLimitKind × String) × Int) (n : Nat) : Bool :=
  match r.label n with
  | some (.countCall call) => call.counted rateLimits = c
  | _ => false

/-- It makes a `SELECT` that lets a call in a window pass. -/
def letsPass (c : (RateLimitKind × String) × Int) (n : Nat) : Bool :=
  match r.label n with
  | some (.windowCount call) => call.counted rateLimits = c ∧ (windowCount (r.state n).limits call).getD 0 < quota rateLimits c.1
  | _ => false

/-- It makes the `DELETE` of a call in a later window. -/
def prunesLater (c : (RateLimitKind × String) × Int) (n : Nat) : Bool :=
  match r.label n with
  | some (.pruneWindows call) => (call.kind, call.clientIP) = c.1 ∧ c.2 < call.bucket rateLimits
  | _ => false

/-- An `INSERT` in a window that another call overtook: since the `SELECT` that let its call pass another `INSERT` was made in the
window, or a `DELETE` had been made before for a later window. -/
def overtaken (c : (RateLimitKind × String) × Int) (n : Nat) : Bool :=
  counts r c n ∧ ∀ i < n, letsPass r c i → (∃ m < n, i < m ∧ counts r c m) ∨ ∃ m < i, prunesLater r c m

/-- The probes that a thread has asked for, if it is for a client in a window. -/
def probesFor (client : String) (window : Int)
    (t : Interleave.Thread GateCall GateReply String GateResponse Backend Visit) : Nat :=
  match t.task with
  | .check q =>
    if q.limit.counted rateLimits = ((.probe, client), window) then t.hist.countP fun ev => ev.call matches .probe _ _ else 0
  | _ => 0

/-- Every request of the run asks the limiter in a year of four digits. -/
def FourDigitYears (r : Run (visit d.caseData) (answerGate d)) : Prop :=
  ∀ n, ∀ t ∈ (r.config n).threads, ∀ call, t.task.limit = some call → IsoTime.FourDigitYear call.now

variable {r}

/-- A call's window is that of its bucket. -/
theorem window_eq {call : RateLimitCall} (hyear : IsoTime.FourDigitYear call.now) :
    window call = windowText (rateLimits call.kind).windowMs (call.bucket rateLimits) :=
  rateWindow_eq (fourDigitYear_start (rateLimits call.kind).minute_or_hour hyear)

/-- The call of a visit that makes a gate call for it lies in a four digit year. -/
theorem year_of_label (hyears : FourDigitYears r) {n : Nat} {call : RateLimitCall} {c : GateCall} (h : r.label n = some c)
    (hlimit : ∀ v hist, Allowed v hist c → v.limit = some call) : IsoTime.FourDigitYear call.now := by
  obtain ⟨t, ht, -, hallowed⟩ := r.follows_label (visit_allowed d.caseData) h
  exact hyears n t ht call (hlimit t.task _ hallowed)

/-- So does that of a prune. -/
theorem year_of_prune (hyears : FourDigitYears r) {n : Nat} {call : RateLimitCall} (h : r.label n = some (.pruneWindows call)) :
    IsoTime.FourDigitYear call.now := by
  refine year_of_label hyears h fun v hist hallowed => ?_
  cases hallowed with
  | prunes _ _ _ hlimit => exact hlimit

/-- And that of a count. -/
theorem year_of_count (hyears : FourDigitYears r) {n : Nat} {call : RateLimitCall} (h : r.label n = some (.countCall call)) :
    IsoTime.FourDigitYear call.now := by
  refine year_of_label hyears h fun v hist hallowed => ?_
  cases hallowed with
  | counts _ _ _ hlimit => exact hlimit

/-- The count that the table holds for a kind and client in a window. -/
def rowOf (table : RateLimitTable) (c : (RateLimitKind × String) × Int) : Nat :=
  (table.get? (c.1.1, c.1.2, windowText (rateLimits c.1.1).windowMs c.2)).getD 0

/-- The row of a counted call is its window's count. -/
theorem rowOf_counted (table : RateLimitTable) {call : RateLimitCall} (hyear : IsoTime.FourDigitYear call.now) :
    rowOf table (call.counted rateLimits) = (windowCount table call).getD 0 := by
  unfold rowOf windowCount
  rw [window_eq hyear]
  rfl

/-- An `INSERT` adds one to the row of its window. -/
theorem rowOf_countCall (table : RateLimitTable) {call : RateLimitCall} (hyear : IsoTime.FourDigitYear call.now) :
    rowOf (countCall table call) (call.counted rateLimits) = rowOf table (call.counted rateLimits) + 1 := by
  rw [rowOf_counted _ hyear, rowOf_counted _ hyear]
  unfold windowCount countCall
  rw [Table.get?_alter, if_pos rfl]
  cases table.get? (call.kind, call.clientIP, window call) <;> rfl

/-- And takes nothing from any row. -/
theorem le_rowOf_countCall (table : RateLimitTable) (call : RateLimitCall) (c : (RateLimitKind × String) × Int) :
    rowOf table c ≤ rowOf (countCall table call) c := by
  unfold rowOf countCall
  rw [Table.get?_alter]
  split
  · rename_i hkey
    rw [hkey]
    cases table.get? (call.kind, call.clientIP, window call) with
    | none => exact Nat.zero_le _
    | some n => exact Nat.le_succ n
  · exact le_rfl

/-- A `DELETE` for the same window or an earlier one leaves the row alone. -/
theorem rowOf_pruneWindows (table : RateLimitTable) {call : RateLimitCall} (hyear : IsoTime.FourDigitYear call.now)
    {c : (RateLimitKind × String) × Int} (hc : IsoTime.FourDigitYear (c.2 * (rateLimits c.1.1).windowMs))
    (hlater : ¬((call.kind, call.clientIP) = c.1 ∧ c.2 < call.bucket rateLimits)) :
    rowOf (pruneWindows table call) c = rowOf table c := by
  obtain ⟨⟨kind, client⟩, bucket⟩ := c
  unfold rowOf pruneWindows
  rw [get?_prune, if_neg]
  rintro ⟨rfl, rfl, hlt⟩
  have hstart := fourDigitYear_start (rateLimits call.kind).minute_or_hour hyear
  rw [window_eq hyear] at hlt
  rcases lt_or_eq_of_le (not_lt.1 fun h => hlater ⟨rfl, h⟩ : call.bucket rateLimits ≤ bucket) with h | h
  · exact lt_asymm hlt (windowText_lt (rateLimits call.kind).minute_or_hour hstart hc h)
  · rw [h] at hlt
    exact lt_irrefl _ hlt

/-- While no later window has pruned it, the row of a window has counted all its `INSERT`s. -/
theorem counts_le_rowOf (hyears : FourDigitYears r) {c : (RateLimitKind × String) × Int}
    (hc : IsoTime.FourDigitYear (c.2 * (rateLimits c.1.1).windowMs)) {n : Nat} (h : ∀ m < n, prunesLater r c m = false) :
    (List.range n).countP (counts r c) ≤ rowOf (r.state n).limits c := by
  induction n with
  | zero => exact Nat.zero_le _
  | succ n ih =>
    have hold := ih fun m hm => h m (hm.trans n.lt_succ_self)
    have hlater := h n n.lt_succ_self
    have hsame : (r.state (n + 1)).limits = (r.state n).limits → counts r c n = false →
        (List.range (n + 1)).countP (counts r c) ≤ rowOf (r.state (n + 1)).limits c := by
      intro hlimits hnone
      rw [List.range_succ, List.countP_append, List.countP_singleton, hnone, hlimits]
      exact hold
    cases hl : r.label n with
    | none => exact hsame (by rw [r.state_of_none hl]) (by rw [counts, hl])
    | some e =>
      have hstate := r.state_of_some hl
      cases e with
      | countCall call =>
        have hlimits : (r.state (n + 1)).limits = countCall (r.state n).limits call := by rw [hstate]; rfl
        rw [List.range_succ, List.countP_append, List.countP_singleton, hlimits, counts, hl]
        by_cases hcall : call.counted rateLimits = c
        · subst hcall
          rw [rowOf_countCall _ (year_of_count hyears hl)]
          simpa using hold
        · have hle := hold.trans (le_rowOf_countCall (r.state n).limits call c)
          simpa [hcall] using hle
      | pruneWindows call =>
        have hlimits : (r.state (n + 1)).limits = pruneWindows (r.state n).limits call := by rw [hstate]; rfl
        rw [prunesLater, hl] at hlater
        rw [List.range_succ, List.countP_append, List.countP_singleton, hlimits,
          rowOf_pruneWindows _ (year_of_prune hyears hl) hc (of_decide_eq_false hlater), counts, hl]
        exact hold
      | windowCount call => exact hsame (by rw [hstate]; rfl) (by rw [counts, hl])
      | store e => exact hsame (by rw [hstate]; rfl) (by rw [counts, hl])
      | getASN ip now => exact hsame (by rw [hstate]; rfl) (by rw [counts, hl])
      | lookupASN ip live => exact hsame (by rw [hstate]; rfl) (by rw [counts, hl])
      | saveASN e stored => exact hsame (by rw [hstate]; rfl) (by rw [counts, hl])
      | probe ip j => exact hsame (by rw [hstate]; rfl) (by rw [counts, hl])

/-- A window in which a call is counted starts in a year of four digits. -/
theorem year_of_counts (hyears : FourDigitYears r) {c : (RateLimitKind × String) × Int} {n : Nat} (h : counts r c n = true) :
    IsoTime.FourDigitYear (c.2 * (rateLimits c.1.1).windowMs) := by
  unfold counts at h
  split at h
  · rename_i call hl
    obtain rfl := of_decide_eq_true h
    exact fourDigitYear_start (rateLimits call.kind).minute_or_hour (year_of_count hyears hl)
  · cases h

/-- An `INSERT` that was not overtaken is one of the first, up to the limit. -/
theorem counts_lt_quota (hyears : FourDigitYears r) {c : (RateLimitKind × String) × Int} {j : Nat} (hcounts : counts r c j = true)
    (h : overtaken r c j = false) : (List.range j).countP (counts r c) < quota rateLimits c.1 := by
  have hnot := of_decide_eq_false h
  simp only [hcounts, true_and, not_forall, not_or, not_exists, not_and, Bool.not_eq_true] at hnot
  obtain ⟨i, hij, hpass, hbetween, hlater⟩ := hnot
  have hrow := counts_le_rowOf hyears (year_of_counts hyears hcounts) hlater
  have hselect : counts r c i = false ∧ rowOf (r.state i).limits c < quota rateLimits c.1 := by
    unfold letsPass at hpass
    split at hpass
    · rename_i call hl
      obtain ⟨rfl, hroom⟩ := of_decide_eq_true hpass
      obtain ⟨t, ht, -, hallowed⟩ := r.follows_label (visit_allowed d.caseData) hl
      have hyear := hyears i t ht call
      generalize t.task = v at hallowed hyear
      cases hallowed with
      | readsCount _ _ _ hlimit =>
        rw [rowOf_counted _ (hyear hlimit), counts, hl]
        exact ⟨rfl, hroom⟩
    · cases hpass
  have hrange : (List.range j).countP (counts r c) = (List.range i).countP (counts r c) := by
    obtain ⟨k, rfl⟩ := Nat.exists_eq_add_of_lt hij
    rw [Nat.add_assoc, List.range_add, List.countP_append, List.countP_map, Nat.add_eq_left]
    refine List.countP_eq_zero.2 fun m hm => ?_
    rw [Function.comp_apply, Bool.not_eq_true]
    cases m with
    | zero => exact hselect.1
    | succ m => exact hbetween _ (by have := List.mem_range.1 hm; omega) (by omega)
  rw [hrange]
  exact hrow.trans_lt hselect.2

/-- A thread asks for a probe only once, and after the limiter counted it. -/
theorem probesFor_le {n : Nat} {t : Interleave.Thread GateCall GateReply String GateResponse Backend Visit}
    (ht : t ∈ (r.config n).threads) (client : String) (window : Int) : probesFor client window t ≤
      t.hist.countP fun ev => match ev.call with
        | .countCall call => decide (call.counted rateLimits = ((.probe, client), window))
        | _ => false := by
  unfold probesFor
  split
  case h_2 => exact Nat.zero_le _
  rename_i q htask
  split
  case isFalse => exact Nat.zero_le _
  rename_i hcounted
  have hrule : ∀ pre ev post, t.hist = pre ++ ev :: post → (ev.call matches .probe _ _) = true →
      (∃ s, (⟨s, .countCall q.limit, ()⟩ : GateEvent) ∈ pre) ∧ ∀ ev' ∈ pre, (ev'.call matches .probe _ _) = false := by
    rintro pre ⟨s, e, reply⟩ post hhist hprobe
    have hallowed := r.follows_hist (visit_allowed d.caseData) ht hhist
    rw [htask] at hallowed
    cases hallowed with
    | probes _ _ ip hgated hfirst =>
      refine ⟨hgated.granted.counted, fun ev' hev' => ?_⟩
      have hnot := hfirst ev' hev'
      split
      · rename_i ip' j' heq
        exact absurd heq (hnot ip' j')
      · rfl
    | prunes => cases hprobe
    | readsCount => cases hprobe
    | counts => cases hprobe
    | reads => cases hprobe
    | looksUp => cases hprobe
    | saves => cases hprobe
    | stores => cases hprobe
  have hone := Interleave.countP_le_one (fun pre ev post hhist hev => (hrule pre ev post hhist hev).2)
  rcases Nat.eq_zero_or_pos (t.hist.countP fun ev => ev.call matches .probe _ _) with hzero | hpos
  · rw [hzero]
    exact Nat.zero_le _
  · obtain ⟨ev, hev, hprobe⟩ := List.countP_pos_iff.1 hpos
    obtain ⟨pre, post, hhist⟩ := List.append_of_mem hev
    obtain ⟨⟨s, hcall⟩, -⟩ := hrule pre ev post hhist hprobe
    have hmem : (⟨s, .countCall q.limit, ()⟩ : GateEvent) ∈ t.hist := by
      rw [hhist]
      exact List.mem_append_left _ hcall
    exact hone.trans (List.countP_pos_iff.2 ⟨_, hmem, by simp [hcounted]⟩)

/-- In every run: a client has no more than ten probes in a minute, and one more for each of its requests that another of its
requests overtook in the limiter. -/
theorem probes_within_quota (r : Run (visit d.caseData) (answerGate d)) (hyears : FourDigitYears r) (n : Nat) (client : String)
    (minute : Int) : ((r.config n).threads.map (probesFor client minute)).sum ≤
      10 + (List.range n).countP (overtaken r ((.probe, client), minute)) := by
  calc ((r.config n).threads.map (probesFor client minute)).sum
      ≤ ((r.config n).threads.map fun t => t.hist.countP fun ev => match ev.call with
          | .countCall call => decide (call.counted rateLimits = ((.probe, client), minute))
          | _ => false).sum := List.sum_le_sum fun t ht => probesFor_le ht client minute
    _ = (List.range n).countP (counts r ((.probe, client), minute)) := by
        rw [r.sum_countP_hist]
        refine List.countP_congr fun i _ => ?_
        unfold counts
        rcases r.label i with _ | _ | _ | _ | _ | _ | _ | _ | _ <;> rfl
    _ ≤ 10 + (List.range n).countP (overtaken r ((.probe, client), minute)) :=
        Interleave.countP_range_le fun j _ hcounts hover => counts_lt_quota hyears hcounts hover

/-! ## The verdicts -/

section

variable {c : RecheckResult} {earlier : List (Prog.Event Store.Call Reply Backend)}

/-- What the store replied to the calls of a check. -/
def Replied (earlier : List (Prog.Event Store.Call Reply Backend)) : Prop :=
    ∀ ev ∈ earlier, ev.reply = (Store.serve ev.call ev.state.site).1

/-- A prune of one IP lists no other. -/
theorem notMem_of_overLimit (h : Replied earlier) {s : Backend} {ips : List String}
    (hmem : ⟨s, .overLimit [c.ip] CHECK_HISTORY_RETENTION, ips⟩ ∈ earlier) {k : String} (hk : k ≠ c.ip) : k ∉ ips := by
  intro hin
  obtain rfl : ips = s.site.db.overLimit [c.ip] CHECK_HISTORY_RETENTION := h _ hmem
  exact hk (List.mem_singleton.1 (Database.mem_overLimit.1 hin).1)

/-- A check prunes the history of its own IP only. -/
theorem notMem_of_dead (h : Replied earlier) {s : Backend} {ips : List String}
    (hmem : ⟨s, .dead [c.ip] CHECK_HISTORY_RETENTION, ips⟩ ∈ earlier) {k : String} (hk : k ≠ c.ip) : k ∉ ips := by
  intro hin
  obtain rfl : ips = s.site.db.dead [c.ip] CHECK_HISTORY_RETENTION := h _ hmem
  exact hk (List.mem_singleton.1 (Database.mem_dead.1 hin).1)

/-- A write of a pool row leaves the rows of other IPs alone. -/
theorem holding_writePool_ne (db : Database) {ip k : String} (hk : k ≠ ip) (f : Option PoolRow → Option PoolRow) :
    (db.writePool ip f).2.holding k = db.holding k := by
  unfold Database.holding
  rw [Database.writePool_checks, Database.get?_writePool, if_neg hk]

/-- A single check is stored without touching the rows of another IP. -/
theorem holding_of_storesCheck (h : Replied earlier) {e : Store.Call} (he : StoresCheck c earlier e) (s : Store.Site) {k : String}
    (hk : k ≠ c.ip) : (Store.serve e s).2.db.holding k = s.db.holding k := by
  cases he with
  | known => rfl
  | overLimit => rfl
  | dead => rfl
  | insert row hrow =>
    have hip : row.ip ≠ k := by
      rw [(recheckRow_ok hrow).1]
      exact hk.symm
    show (s.db.insertRow row).2.holding k = _
    unfold Database.insertRow Database.holding
    by_cases hkey : s.db.checks.HasKey row
    · rw [IpChecks.insert_of_hasKey hkey]
    · rw [IpChecks.insert_of_not_hasKey hkey, IpChecks.newestFirst_append_ne hkey hip]
  | update ts hts => exact holding_writePool_ne _ hk _
  | create ts scanMode hts hok => exact holding_writePool_ne _ hk _
  | cut s' ips hmem =>
    show (s.db.batch _).2.holding k = _
    rw [Database.batch_snd, Database.holding_cut, if_neg (notMem_of_overLimit h hmem hk)]
  | evict s' ips hmem =>
    show (s.db.batch _).2.holding k = _
    rw [Database.batch_snd, Database.holding_evict, if_neg fun hin => notMem_of_dead h hmem hk hin.1]

end

/-- In every run: before whatever a request of `/check` does to the tables of the site, it asked for a probe of its address, which
reached a verdict with one token on all hops and all attempts in agreement; it stores that verdict, with what its own earlier
calls were told, and touches no row of another IP. -/
theorem check_stores_verdict (r : Run (visit d.caseData) (answerGate d)) {n : Nat}
    {t : Interleave.Thread GateCall GateReply String GateResponse Backend Visit} (ht : t ∈ (r.config n).threads)
    {q : CheckRequest} (htask : t.task = .check q) {pre post : List GateEvent} {ev : GateEvent}
    (hhist : t.hist = pre ++ ev :: post) {e : Store.Call} (hcall : ev.call = .store e) :
    ∃ (ip : String) (s : Backend) (result : Scan.Result) (earlier : List (Prog.Event Store.Call Reply Backend)),
      normalize q.ip = some ip ∧ (⟨s, .probe ip q.journey, some (.result result)⟩ : GateEvent) ∈ pre ∧
      d.tokens.pages = d.tokens.worker ∧ d.tokens.worker = d.tokens.server ∧
      d.prober.probeOnce ip q.journey.meeting = some result ∧ result.mixed = false ∧
      (if result.ok then Recheck.Reached d.prober ip q.journey.meeting else Recheck.Failed d.prober ip q.journey.meeting) ∧
      (∀ ev' ∈ earlier, onBackend ev' ∈ pre) ∧ StoresCheck (q.verdict ip result) earlier e ∧
      ∀ k ≠ ip, (Store.serve e ev.state.site).2.db.holding k = ev.state.site.db.holding k := by
  have hallowed := r.follows_hist (visit_allowed d.caseData) ht hhist
  have hrec := (r.thread_spec n t ht).2
  rw [htask, hcall] at hallowed
  cases hallowed with
  | stores _ _ ip result s earlier _ haddress hprobe hplain hearlier hstores =>
    have hin : ∀ ev' ∈ pre, ev' ∈ t.hist := fun ev' hev' => by rw [hhist]; exact List.mem_append_left _ hev'
    obtain ⟨i, -, -, -, -, hreply⟩ := hrec.of_mem (hin _ hprobe)
    obtain ⟨hpages, hserver, honce⟩ := probeProxy_result hreply.symm
    have hreplied : Replied earlier := by
      intro ev' hev'
      obtain ⟨i', -, -, -, hstate, hreply'⟩ := hrec.of_mem (hin _ (hearlier ev' hev'))
      rw [← hstate] at hreply'
      exact hreply'
    exact ⟨ip, s, result, earlier, haddress, hprobe, hpages, hserver, honce, hplain, probed_of_probeOnce honce hplain, hearlier,
      hstores, fun k hk => holding_of_storesCheck hreplied hstores _ hk⟩

/-! ### Two probes -/

/-- One token on all hops, and the prober of the probe server. -/
def sampleDeployment : Deployment := ⟨Recheck.sampleProber, ⟨"secret", "secret", "secret"⟩, JsCase.asciiData⟩

/-- A request for a probe of 8.8.8.8, whose AS a live lookup tells. -/
def sampleCheck : CheckRequest where
  country := "CN"
  ip := "8.8.8.8"
  clientIP := "192.0.2.1"
  limitedAt := 1754028000000
  limiterAnswers := 3
  lookup := ⟨1754028000000, .ok (⟨15169, "GOOGLE, US", "8.8.8.0/24", "US"⟩, 300, true), 1754028000000, true⟩
  journey := ⟨true, true, Recheck.sampleMeeting, true⟩
  checkedAt := 1754028001000

/-- A second request, a second later. -/
def laterCheck : CheckRequest :=
  { sampleCheck with
    ip := "8.8.8.9", limitedAt := 1754028001000, checkedAt := 1754028002000
    lookup := ⟨1754028001000, .error "timeout", 1754028001000, true⟩ }

/-- The first request comes to its end, and the second finds the prefix in the cache. -/
def twoChecks : Run (visit sampleDeployment.caseData) (answerGate sampleDeployment) :=
  Run.scheduled _ _ (.other (.prune []) rfl) ⟨emptySite, Table.empty, Table.empty⟩
    ([.spawn (.check sampleCheck), .spawn (.check laterCheck)] ++ List.replicate 12 (.call 0) ++ List.replicate 5 (.call 1))

/-- A check passes by a prefix that was saved for another address. -/
theorem probe_gated_cached : ∃ q : CheckRequest, normalize q.ip = some "8.8.8.9" ∧ q.country = "CN" ∧
    KnownGoogle twoChecks 18 "8.8.8.9" q.lookup.readAt := by
  have hprobe : (twoChecks.label 18).any (fun e => match e with
      | .probe ip _ => ip = "8.8.8.9"
      | _ => false) = true := by decide +kernel
  obtain ⟨e, hlabel, hip⟩ := (Option.any_eq_true _ _).1 hprobe
  cases e with
  | probe ip j =>
    obtain rfl := of_decide_eq_true hip
    obtain ⟨-, -, q, -, -, hcountry, haddress, -, -, -, hknown⟩ := probe_gated twoChecks rfl hlabel
    exact ⟨q, haddress, hcountry, hknown⟩
  | _ => cases hip

/-- The first request has stored its verdict after ten moments, and its own probe is in its history. -/
theorem check_stores_verdict_first : ∃ t ∈ (twoChecks.config 10).threads, ∃ (s : Backend) (j : Recheck.Journey)
    (result : Scan.Result),
    (⟨s, .probe "8.8.8.8" j, some (.result result)⟩ : GateEvent) ∈ t.hist ∧
      sampleDeployment.prober.probeOnce "8.8.8.8" j.meeting = some result ∧ result.mixed = false ∧
      if result.ok then Recheck.Reached sampleDeployment.prober "8.8.8.8" j.meeting
      else Recheck.Failed sampleDeployment.prober "8.8.8.8" j.meeting := by
  have hstore : (twoChecks.config 10).threads.any (fun t => (match t.task with
      | .check q => q.ip = "8.8.8.8"
      | _ => false) && t.hist.any fun ev => ev.call matches .store _) = true := by decide +kernel
  obtain ⟨t, ht, hboth⟩ := List.any_eq_true.1 hstore
  obtain ⟨htask, hany⟩ := Bool.and_eq_true_iff.1 hboth
  obtain ⟨ev, hev, hcall⟩ := List.any_eq_true.1 hany
  split at htask
  case h_2 => cases htask
  rename_i q hq
  split at hcall
  case h_2 => cases hcall
  rename_i e he
  obtain ⟨pre, post, hhist⟩ := List.append_of_mem hev
  obtain ⟨ip, s, result, -, haddress, hprobe, -, -, honce, hplain, hverdict, -⟩ := check_stores_verdict twoChecks ht hq hhist he
  have hip : normalize "8.8.8.8" = some ip := by rw [← of_decide_eq_true htask, haddress]
  obtain rfl : "8.8.8.8" = ip := Option.some.inj ((show normalize "8.8.8.8" = some "8.8.8.8" by decide +kernel).symm.trans hip)
  refine ⟨t, ht, s, q.journey, result, ?_, honce, hplain, hverdict⟩
  rw [hhist]
  exact List.mem_append_left _ hprobe

/-- Both requests read the count before either is counted, so the second is overtaken. -/
def racingChecks : Run (visit sampleDeployment.caseData) (answerGate sampleDeployment) :=
  Run.scheduled _ _ (.other (.prune []) rfl) ⟨emptySite, Table.empty, Table.empty⟩
    ([.spawn (.check sampleCheck), .spawn (.check laterCheck), .call 0, .call 0, .call 1, .call 1] ++
      List.replicate 10 (.call 0) ++ List.replicate 3 (.call 1))

/-- Two calls in a race probe twice, one of them overtaken. -/
theorem probes_within_quota_race : ((racingChecks.config 19).threads.map (probesFor "192.0.2.1" 29233800)).sum = 2 ∧
    (List.range 19).countP (overtaken racingChecks ((.probe, "192.0.2.1"), 29233800)) = 1 ∧
    ((racingChecks.config 19).threads.map (probesFor "192.0.2.1" 29233800)).sum ≤
      10 + (List.range 19).countP (overtaken racingChecks ((.probe, "192.0.2.1"), 29233800)) := by
  have hyears : FourDigitYears racingChecks := by
    refine Run.scheduled_threads nofun fun n hn t ht call hcall => ?_
    have hall : ∀ n ≤ 19, ∀ t ∈ (racingChecks.config n).threads,
        t.task.limit.all (fun call => IsoTime.FourDigitYear call.now) = true := by
      decide +kernel
    have hyear := hall n hn t ht
    rw [hcall] at hyear
    exact of_decide_eq_true hyear
  exact ⟨by decide +kernel, by decide +kernel, probes_within_quota racingChecks hyears 19 "192.0.2.1" 29233800⟩

end Gwsdb.Gate
