import Gwsdb.Lemmas.AsnCache
import Gwsdb.Lemmas.Batches
import Gwsdb.Lemmas.Prune
import Gwsdb.Lemmas.Statements
import Gwsdb.Web.Check

/-!
# What a visit has behind it at each of its calls

`Allowed` says which calls a visit may make after which: a probe only behind all the gates, a call of the store in a
`/check` only behind a probe with a plain verdict, and a row into `asn_cache` only behind a live lookup of Google's. Every
visit keeps to it (`visit_allowed`).
-/

namespace Gwsdb.Gate

open Gwsdb.Store
open Gwsdb.Web (ASNCacheEntry ASNInfo DEFAULT_SCAN_MODE Response clampTTL handleCheck handleCheck_of_mixed
  handleCheck_of_probed isGoogleASN
  normalize passes storeCheck)
open Interleave (Prog)

/-- A call that was made. -/
abbrev GateEvent := Prog.Event GateCall GateReply Backend

/-! ## The rule -/

/-- The gate of the AS let an address pass, on what `asn_cache` or a live lookup told. -/
inductive PassedASN (ip : String) (l : Lookup) (hist : List GateEvent) : Prop
  | cached (s : Backend) (e : ASNCacheEntry) (h : ⟨s, .getASN ip l.readAt, some e⟩ ∈ hist)
      (hpasses : passes (e.toASNInfo, e.lookupOk) = true)
  | live (s : Backend) (info : ASNInfo) (ttlSeconds : Nat) (h : ⟨s, .lookupASN ip l.live, .ok (info, ttlSeconds, true)⟩ ∈ hist)
      (hgoogle : isGoogleASN info = true)

/-- An entry saved is what a live lookup of its address told, and Google's. -/
structure FoundASN (e : ASNCacheEntry) (hist : List GateEvent) : Prop where
  found : ∃ s live ttlSeconds, ⟨s, .lookupASN e.ip live, .ok (e.toASNInfo, ttlSeconds, true)⟩ ∈ hist ∧
    e.ttlSeconds = clampTTL ttlSeconds
  google : isGoogleASN e.toASNInfo = true
  lookupOk : e.lookupOk = true

/-- The limiter read a count below the limit, and counted the call. -/
structure Granted (call : RateLimitCall) (hist : List GateEvent) : Prop where
  room : ∃ s count, ⟨s, .windowCount call, count⟩ ∈ hist ∧ (count.getD 0 : Int) < (rateLimits call.kind).limit
  counted : ∃ s, ⟨s, .countCall call, ()⟩ ∈ hist

/-- A grant lasts. -/
theorem Granted.mono {call : RateLimitCall} {hist hist' : List GateEvent} (h : Granted call hist) (hsub : hist ⊆ hist') :
    Granted call hist' := by
  obtain ⟨⟨s, count, hread, hroom⟩, ⟨s', hcounted⟩⟩ := h
  exact ⟨⟨s, count, hsub hread, hroom⟩, ⟨s', hsub hcounted⟩⟩

/-- All the gates let a request of `/check` pass. -/
structure Gated (q : CheckRequest) (ip : String) (hist : List GateEvent) : Prop where
  country : q.country = "CN"
  address : normalize q.ip = some ip
  client : q.clientIP ≠ ""
  granted : Granted q.limit hist
  google : PassedASN ip q.lookup hist

/-- The calls with which a single check is stored: its row and its pool row, and a prune of what the tables say is to go. -/
inductive StoresCheck (c : RecheckResult) {σ : Type} : List (Prog.Event Store.Call Reply σ) → Store.Call → Prop
  | known (hist) : StoresCheck c hist (.isKnownGood c.ip)
  | insert (hist) (row : NewCheck) (h : recheckRow c = .ok row) : StoresCheck c hist (.batch [.insertRecheck row])
  | update (hist) (ts : String) (h : toSQLiteDateTime c.checkedAt = .ok ts) :
      StoresCheck c hist (.batch [.bumpPoolRevision, .poolCheck c.ip ts c.ok (c.rttMs.getD 0)])
  | create (hist) (ts : String) (scanMode : Option String) (h : toSQLiteDateTime c.checkedAt = .ok ts) (hok : c.ok = true) :
      StoresCheck c hist (.batch [.bumpPoolRevision, .poolInsert
        { ip := c.ip, isIPv6 := c.ip.toList.contains ':', scanMode, successTS := ts, rttMs := c.rttMs.getD 0, latestTS := ts,
          latestOk := true }])
  | overLimit (hist) : StoresCheck c hist (.overLimit [c.ip] CHECK_HISTORY_RETENTION)
  | cut (hist) (s : σ) (ips : List String) (h : ⟨s, .overLimit [c.ip] CHECK_HISTORY_RETENTION, ips⟩ ∈ hist) :
      StoresCheck c hist (.batch [.deleteOldChecks ips CHECK_HISTORY_RETENTION, .recount ips])
  | dead (hist) : StoresCheck c hist (.dead [c.ip] CHECK_HISTORY_RETENTION)
  | evict (hist) (s : σ) (ips : List String) (h : ⟨s, .dead [c.ip] CHECK_HISTORY_RETENTION, ips⟩ ∈ hist) :
      StoresCheck c hist (.batch [.bumpPoolRevision, .markReset, .evict ips])

/-- The call with which a visit asks the limiter. -/
def Visit.limit : Visit → Option RateLimitCall
  | .check q => some q.limit
  | .query q => some q.limit
  | .other _ _ => none

/-- The check that a verdict is stored as. -/
def CheckRequest.verdict (q : CheckRequest) (ip : String) (r : Scan.Result) : RecheckResult :=
  ⟨ip, r.ok, some r.rttMs, some r.reason, some r.detail, some q.checkedAt, .text DEFAULT_SCAN_MODE⟩

/-- A call of the store, as it was made. -/
def onBackend (ev : Prog.Event Store.Call Reply Backend) : GateEvent := ⟨ev.state, .store ev.call, ev.reply⟩

/-- The calls a visit may make after those it has made. -/
inductive Allowed : Visit → List GateEvent → GateCall → Prop
  | prunes (v : Visit) (hist) (call : RateLimitCall) (h : v.limit = some call) : Allowed v hist (.pruneWindows call)
  | readsCount (v : Visit) (hist) (call : RateLimitCall) (h : v.limit = some call) : Allowed v hist (.windowCount call)
  | counts (v : Visit) (hist) (call : RateLimitCall) (h : v.limit = some call) (s : Backend) (count : Option Nat)
      (hcount : ⟨s, .windowCount call, count⟩ ∈ hist) (hroom : (count.getD 0 : Int) < (rateLimits call.kind).limit) :
      Allowed v hist (.countCall call)
  | reads (v : Visit) (hist) (ip : String) (now : Int) : Allowed v hist (.getASN ip now)
  | looksUp (v : Visit) (hist) (ip : String) (live : LiveAnswer) : Allowed v hist (.lookupASN ip live)
  | saves (v : Visit) (hist) (e : ASNCacheEntry) (stored : Bool) (h : FoundASN e hist) : Allowed v hist (.saveASN e stored)
  | probes (q : CheckRequest) (hist) (ip : String) (h : Gated q ip hist) (hfirst : ∀ ev ∈ hist, ∀ ip j, ev.call ≠ .probe ip j) :
      Allowed (.check q) hist (.probe ip q.journey)
  | stores (q : CheckRequest) (hist) (ip : String) (r : Scan.Result) (s : Backend)
    (earlier : List (Prog.Event Store.Call Reply Backend))
      (e : Store.Call) (haddress : normalize q.ip = some ip) (hprobe : ⟨s, .probe ip q.journey, some (.result r)⟩ ∈ hist)
      (hplain : r.mixed = false) (hearlier : ∀ ev ∈ earlier, onBackend ev ∈ hist) (h : StoresCheck (q.verdict ip r) earlier e) :
      Allowed (.check q) hist (.store e)
  | other (t : Web.Task) (ht : isCheck t = false) (hist) (e : Store.Call) : Allowed (.other t ht) hist (.store e)

/-! ## Single checks -/

section
variable {σ : Type} (c : RecheckResult) (hist : List (Prog.Event Store.Call Reply σ))

/-- The insert of a check is one of the calls that store it. -/
theorem insertRecheck_follows : (insertRecheck c).Follows (StoresCheck c) hist := by
  unfold insertRecheck
  cases hrow : recheckRow c with
  | error err => trivial
  | ok row => exact ⟨.insert hist row hrow, fun s r => trivial⟩

/-- So is the insert that `saveRecheckResult` makes. -/
theorem saveRecheckResult_follows : (saveRecheckResult c).Follows (StoresCheck c) hist := by
  unfold saveRecheckResult
  split
  · exact insertRecheck_follows c hist
  · refine ⟨.known hist, fun s known => ?_⟩
    cases known
    · trivial
    · exact insertRecheck_follows c _

/-- The pool update of a check makes calls that store it. -/
theorem updatePoolForCheck_follows :
    (updatePoolForCheck c.ip c.ok c.rttMs c.checkedAt c.scanMode).Follows (StoresCheck c) hist := by
  unfold updatePoolForCheck
  cases hts : toSQLiteDateTime c.checkedAt with
  | error err => trivial
  | ok ts =>
    refine ⟨.update hist ts hts, fun s results => ?_⟩
    rcases results with _ | ⟨_, _ | ⟨changes, _⟩⟩
    · trivial
    · trivial
    · show Prog.Follows _ _ (if changes = 0 ∧ c.ok then insertPoolRow c.ip c.rttMs ts c.scanMode else pure ())
      split
      · rename_i hcreates
        unfold insertPoolRow
        cases hmode : c.scanMode.bind with
        | error err => trivial
        | ok scanMode => exact ⟨.create _ ts scanMode hts hcreates.2, fun s r => trivial⟩
      · trivial

/-- The prune of its IP makes calls that store it. -/
theorem pruneCheckHistory_follows : (pruneCheckHistory [c.ip]).Follows (StoresCheck c) hist := by
  have hchunks : Chunks.chunks PRUNE_IP_CHUNK [c.ip].eraseDups = [[c.ip]] := rfl
  have hturn : Prog.Follows (StoresCheck c) hist (perform (.overLimit [c.ip] CHECK_HISTORY_RETENTION) >>= fun overLimit =>
      deleteOld overLimit >>= fun _ => perform (.dead [c.ip] CHECK_HISTORY_RETENTION) >>= evictDead) := by
    refine ⟨.overLimit hist, fun s overLimit => ?_⟩
    refine Prog.Follows.bind (p := deleteOld overLimit) ?_ fun u es _ => ⟨.dead _, fun s' dead => ?_⟩
    · unfold deleteOld
      split
      · exact ⟨.cut _ s overLimit (List.mem_append_right _ List.mem_cons_self), fun s r => trivial⟩
      · trivial
    · show (evictDead dead).Follows _ _
      unfold evictDead
      split
      · exact ⟨.evict _ s' dead (List.mem_append_right _ List.mem_cons_self), fun s r => trivial⟩
      · trivial
  unfold pruneCheckHistory
  rw [hchunks]
  exact Prog.Follows.bind hturn fun u es _ => trivial

/-- A single check is stored with these calls. -/
theorem storeCheck_follows : (storeCheck c).Follows (StoresCheck c) hist := by
  unfold storeCheck
  refine (saveRecheckResult_follows c hist).bind fun u es _ => ?_
  refine (updatePoolForCheck_follows c _).bind fun u es' _ => ?_
  exact pruneCheckHistory_follows c _

end

/-! ## Visits -/

/-- No call of a list is a probe. -/
def Unprobed (hist : List GateEvent) : Prop := ∀ ev ∈ hist, ∀ ip j, ev.call ≠ .probe ip j

/-- A history without a probe and another one are one without a probe. -/
theorem Unprobed.append {hist es : List GateEvent} (h : Unprobed hist) (hes : Unprobed es) : Unprobed (hist ++ es) := by
  intro ev hev
  rcases List.mem_append.1 hev with hev | hev
  · exact h ev hev
  · exact hes ev hev

/-- What comes after the limiter starts with no probe made, and with the call granted where it says so. -/
theorem follows_tryRateLimit {v : Visit} {α : Type} {answered : Nat} {call : RateLimitCall} (hcall : v.limit = some call)
    {hist : List GateEvent} {f : Except String Bool → GateProgram α}
    (hf : ∀ es allowed, Unprobed es → (allowed = .ok true → Granted call (hist ++ es)) →
      (f allowed).Follows (Allowed v) (hist ++ es)) :
    (tryRateLimit answered call >>= f).Follows (Allowed v) hist := by
  unfold tryRateLimit
  split
  · have hdown := hf [] (.error "D1_ERROR") (by simp [Unprobed]) nofun
    rwa [List.append_nil] at hdown
  refine ⟨.prunes v hist call hcall, fun s u => ?_⟩
  split
  · exact hf [⟨s, .pruneWindows call, u⟩] (.error "D1_ERROR") (by simp [Unprobed]) nofun
  refine ⟨.readsCount v _ call hcall, fun s' count => ?_⟩
  rw [List.append_assoc]
  show Prog.Follows _ _ (countIfRoom answered call count >>= f)
  unfold countIfRoom
  split
  · exact hf [⟨s, .pruneWindows call, u⟩, ⟨s', .windowCount call, count⟩] (.ok false) (by simp [Unprobed]) nofun
  rename_i hroom
  split
  · exact hf [⟨s, .pruneWindows call, u⟩, ⟨s', .windowCount call, count⟩] (.error "D1_ERROR") (by simp [Unprobed]) nofun
  refine ⟨.counts v _ call hcall s' count (by simp) (not_le.1 hroom), fun s'' u' => ?_⟩
  rw [List.append_assoc]
  refine hf [⟨s, .pruneWindows call, u⟩, ⟨s', .windowCount call, count⟩, ⟨s'', .countCall call, u'⟩]
    (.ok true) (by simp [Unprobed]) ?_
  exact fun _ => ⟨⟨s', count, by simp, not_le.1 hroom⟩, ⟨s'', by simp⟩⟩

/-- What comes after a lookup of the AS starts with no probe made, and behind the gate where it passes. -/
theorem follows_tryGoogleASN {v : Visit} {α : Type} {ip : String} {l : Lookup} {hist : List GateEvent}
    {f : Except String (ASNInfo × Bool) → GateProgram α}
    (hf : ∀ es asn, Unprobed es → (∀ a, asn = .ok a → passes a = true → PassedASN ip l (hist ++ es)) →
      (f asn).Follows (Allowed v) (hist ++ es)) : (tryGoogleASN ip l >>= f).Follows (Allowed v) hist := by
  refine ⟨.reads v hist ip l.readAt, fun s cached => ?_⟩
  cases cached with
  | some cached =>
    refine hf [⟨s, .getASN ip l.readAt, some cached⟩] _ ?_ ?_
    · simp [Unprobed]
    · rintro a ⟨⟩ hpasses
      exact .cached s cached (by simp) hpasses
  | none =>
    refine ⟨.looksUp v _ ip l.live, fun s' live => ?_⟩
    rw [List.append_assoc]
    cases live with
    | error err =>
      refine hf [⟨s, .getASN ip l.readAt, none⟩, ⟨s', .lookupASN ip l.live, .error err⟩] _ ?_ nofun
      simp [Unprobed]
    | ok found =>
      obtain ⟨info, ttlSeconds, ok⟩ := found
      show Prog.Follows _ _ ((keepASN ip l info ttlSeconds ok >>= fun result => .ret (.ok result)) >>= f)
      unfold keepASN
      by_cases hkeep : (!ok || !isGoogleASN info) = true
      · rw [if_pos hkeep]
        refine hf [⟨s, .getASN ip l.readAt, none⟩, ⟨s', .lookupASN ip l.live, .ok (info, ttlSeconds, ok)⟩] _ ?_ ?_
        · simp [Unprobed]
        · rintro a ⟨⟩ hpasses
          simp_all [passes]
      · rw [if_neg hkeep]
        simp only [Bool.or_eq_true, Bool.not_eq_true', not_or, Bool.not_eq_false] at hkeep
        obtain ⟨rfl, hgoogle⟩ := hkeep
        refine ⟨.saves v _ _ l.stored ⟨⟨s', l.live, ttlSeconds, by simp, rfl⟩, hgoogle, rfl⟩, fun s'' u => ?_⟩
        rw [List.append_assoc]
        refine hf _ _ ?_ ?_
        · simp [Unprobed]
        · rintro a ⟨⟩ hpasses
          exact .live s' info ttlSeconds (by simp) hgoogle

/-- Behind the gates, one probe and the calls that store its verdict are allowed. -/
theorem probeAndStore_allowed {q : CheckRequest} {ip : String} {hist : List GateEvent}
    (h : Gated q ip hist) (hfirst : Unprobed hist) :
    (probeAndStore q ip).Follows (Allowed (.check q)) hist := by
  refine ⟨.probes q hist ip h hfirst, fun s reply => ?_⟩
  rcases reply with _ | ⟨status, message⟩ | r
  · trivial
  · trivial
  · show Prog.Follows _ _ (onStore (handleCheck q.checkedAt q.ip (relayed r)) >>= fun _ =>
      (.ret (.probed (relayed r)) : GateProgram GateResponse))
    refine Prog.Follows.bind ?_ fun u es _ => trivial
    by_cases hmixed : (relayed r).mixed = true
    · rw [handleCheck_of_mixed h.address hmixed]
      trivial
    · rw [handleCheck_of_probed h.address hmixed]
      have hstores : Prog.Follows (StoresCheck (q.verdict ip r)) ([] : List (Prog.Event Store.Call Reply Backend))
          (storeCheck (q.verdict ip r) >>= fun _ => (.ret (.probed r.ok) : Program Response)) :=
        (storeCheck_follows _ _).bind fun u es _ => trivial
      refine hstores.hoist (T := fun earlier es => (∀ ev ∈ earlier, onBackend ev ∈ es) ∧
        (⟨s, .probe ip q.journey, some (.result r)⟩ : GateEvent) ∈ es) ⟨nofun, by simp⟩ ?_ ?_
      · rintro earlier es ⟨hearlier, hprobe⟩ s' e r'
        refine ⟨fun ev hev => ?_, List.mem_append_left _ hprobe⟩
        rcases List.mem_append.1 hev with hev | hev
        · exact List.mem_append_left _ (hearlier ev hev)
        · rw [List.mem_singleton.1 hev]
          exact List.mem_append_right _ List.mem_cons_self
      · rintro earlier es ⟨hearlier, hprobe⟩ e he
        exact .stores q es ip r s earlier e h.address hprobe (Bool.eq_false_iff.2 hmixed) hearlier he

/-- A request for a probe keeps to its rules. -/
theorem checkIP_allowed (q : CheckRequest) : (checkIP q).Follows (Allowed (.check q)) [] := by
  unfold checkIP
  split
  · trivial
  rename_i hcountry
  cases haddress : normalize q.ip with
  | none => trivial
  | some ip =>
    simp only
    split
    · trivial
    rename_i hclient
    refine follows_tryRateLimit rfl fun es allowed hes hgranted => ?_
    rcases allowed with err | _ | _
    · trivial
    · trivial
    · refine follows_tryGoogleASN fun es' asn hes' hgoogle => ?_
      cases asn with
      | error err => trivial
      | ok asn =>
        simp only
        split
        · rename_i hpasses
          refine probeAndStore_allowed ⟨not_not.1 hcountry, haddress, hclient, ?_, hgoogle asn rfl hpasses⟩ (hes.append hes')
          exact (hgranted rfl).mono (List.subset_append_left _ _)
        · trivial

/-- The limiter of a query keeps to its rules. -/
theorem underQueryRateLimit_allowed (q : QueryRequest) (hist : List GateEvent) :
    (underQueryRateLimit q).Follows (Allowed (.query q)) hist := by
  unfold underQueryRateLimit
  split
  · trivial
  · refine follows_tryRateLimit rfl fun es allowed _ _ => ?_
    rcases allowed with err | _ | _
    · trivial
    · trivial
    · trivial

/-- A query keeps to its rules. -/
theorem queryGates_allowed (u : JsCase.CaseData) (q : QueryRequest) : (queryGates u q).Follows (Allowed (.query q)) [] := by
  unfold queryGates
  split
  · cases normalize q.ip with
    | none => trivial
    | some ip =>
      simp only
      split
      · trivial
      refine (underQueryRateLimit_allowed q []).bind fun allowed es _ => ?_
      cases allowed with
      | false => trivial
      | true =>
        refine follows_tryGoogleASN fun es asn _ _ => ?_
        cases asn with
        | error err => trivial
        | ok asn =>
          simp only
          split
          · trivial
          · trivial
  split
  · trivial
  split
  · refine (underQueryRateLimit_allowed q []).bind fun allowed es _ => ?_
    cases allowed
    · trivial
    · trivial
  · trivial

/-- Every visit keeps to the rule. -/
theorem visit_allowed (u : JsCase.CaseData) (v : Visit) : (visit u v).Follows (Allowed v) [] := by
  cases v with
  | check q => exact checkIP_allowed q
  | query q => exact queryGates_allowed u q
  | other t ht =>
    refine Prog.Follows.bind ?_ fun r es _ => trivial
    have hany : Prog.Follows (fun _ _ => True) ([] : List (Prog.Event Store.Call Reply Backend)) (Web.start t) :=
      Prog.follows_of_forall (fun _ _ => trivial) _
    exact hany.hoist (T := fun _ _ => True) trivial (fun _ _ _ _ _ _ => trivial) fun _ es _ e _ => .other t ht es e

end Gwsdb.Gate
