import Gwsdb.Recheck.Ping
import Mathlib.Tactic

/-!
# What a ping hears

`Ping` reads in three nested stages and keeps the last error and the last type on the way. None of that shows in its result: it is
decided by the first packet, of all that the attempts hear, that is a genuine reply or that the header slice does not fit
(`ping_first_reply`, `ping_panics_iff`). The packets between them do not matter, however many there are (`ping_ignores_strays`).
-/

namespace Gwsdb.Recheck

open Gwsdb.Scan (sanitizeNetErr)

/-! ## The statements -/

section

variable (lib : Parsers) (network : Socket) (t : Target) (cfg : PingConfig)

/-- A reply to the ping: from its target, of the type of a reply, and not sooner than a reply can come. -/
structure Genuine (p : Packet) : Prop where
  ours : stray network t p = false
  reply : ∃ message, messageOf network t p = some message ∧ lib.parseMessage t.proto message = .ok t.replyType
  notTooFast : 0 < cfg.minRTT → cfg.minRTT ≤ p.rtt

/-- A packet whose first byte announces a longer header than there are bytes. -/
def Overruns (p : Packet) : Prop :=
  network = .raw ∧ t.addr.is4 = true ∧
    ∃ b rest, p.payload = b :: rest ∧ 20 ≤ p.payload.length ∧ b >>> 4 = 4 ∧ p.payload.length < ((b &&& 0x0f) * 4).toNat

/-- A packet that ends the call. -/
def Ends (p : Packet) : Prop := Genuine lib network t cfg p ∨ Overruns network t p

/-- The first of the packets that ends the call. -/
def FirstEnd (packets : List Packet) (p : Packet) : Prop :=
  ∃ before after, packets = before ++ p :: after ∧ Ends lib network t cfg p ∧ ∀ q ∈ before, ¬Ends lib network t cfg q

end

/-- The packets that an attempt reads. -/
def Echo.heard (cfg : PingConfig) (deadline : Instant) (e : Echo) : List Packet :=
  if e.writeErr = none then (e.reads (e.readDeadline cfg deadline)).1 else []

/-- The error with which an attempt ends when no reply comes. -/
def Echo.lastErr (cfg : PingConfig) (deadline : Instant) (e : Echo) : String :=
  e.writeErr.getD (e.reads (e.readDeadline cfg deadline)).2

/-- The attempts that begin: those before the first one that the deadline has overtaken. -/
def begun (deadline : Instant) (echoes : List Echo) : List Echo := echoes.takeWhile fun e => decide (e.now < deadline)

/-- The deadline of a call. -/
def Network.deadline (ctxDeadline : Option Instant) (cfg : PingConfig) (net : Network) : Instant :=
  ctxDeadline.getD (net.now + cfg.pingBudget)

/-- The attempts of a call. -/
def Network.attempts (ctxDeadline : Option Instant) (cfg : PingConfig) (net : Network) : List Echo :=
  begun (net.deadline ctxDeadline cfg) ((List.range pingCount).map net.echo)

/-- The packets that a call hears. -/
def Network.heard (ctxDeadline : Option Instant) (cfg : PingConfig) (net : Network) : List Packet :=
  (net.attempts ctxDeadline cfg).flatMap (Echo.heard cfg (net.deadline ctxDeadline cfg))

/-- The error of a call that hears no reply: that of its last attempt, or that of a deadline. -/
def Network.lastErr (ctxDeadline : Option Instant) (cfg : PingConfig) (net : Network) : String :=
  ((net.attempts ctxDeadline cfg).getLast?.map (Echo.lastErr cfg (net.deadline ctxDeadline cfg))).getD "i/o timeout"

/-- The call gets as far as its attempts. -/
structure Opened (lib : Parsers) (pingRaw ip : String) (net : Network) (t : Target) (network : Socket) : Prop where
  parsed : lib.parseAddr ip = .ok t
  dialled : dial pingRaw net = .ok network
  marshalled : net.marshalErr = none

/-! ## One packet -/

section

variable {lib : Parsers} {network : Socket} {t : Target} {cfg : PingConfig}

/-- How a packet ends the call, if it does. -/
def endOf (lib : Parsers) (network : Socket) (t : Target) (cfg : PingConfig) (p : Packet) : Option Outcome :=
  match messageOf network t p with
  | none => some .panicked
  | some message =>
    if stray network t p = false ∧ (lib.parseMessage t.proto message).toOption = some t.replyType ∧
        ¬(0 < cfg.minRTT ∧ p.rtt < cfg.minRTT) then
      some (.replied p.rtt)
    else none

/-- The header cannot be cut off where it says to be longer than the packet. -/
theorem stripHeader_eq_none {payload : List UInt8} : stripHeader payload = none ↔
    ∃ b rest, payload = b :: rest ∧ 20 ≤ payload.length ∧ b >>> 4 = 4 ∧ payload.length < ((b &&& 0x0f) * 4).toNat := by
  unfold stripHeader
  cases payload with
  | nil => simp
  | cons b rest =>
    constructor
    · intro h
      simp only at h
      split at h
      · rename_i hlong
        split at h
        · cases h
        · rename_i hover
          exact ⟨b, rest, rfl, hlong.1, hlong.2, not_le.mp hover⟩
      · cases h
    · rintro ⟨b', rest', heq, hlong, hversion, hover⟩
      cases heq
      simp only
      rw [if_pos ⟨hlong, hversion⟩, if_neg (not_le.mpr hover)]

/-- A packet holds no message when it overruns. -/
theorem messageOf_eq_none {p : Packet} : messageOf network t p = none ↔ Overruns network t p := by
  unfold messageOf Overruns
  split
  · rename_i hraw
    rw [stripHeader_eq_none, and_iff_right hraw.1, and_iff_right hraw.2]
  · rename_i hraw
    exact iff_of_false (Option.some_ne_none _) fun h => hraw ⟨h.1, h.2.1⟩

/-- A packet ends the ping with a reply when it is genuine. -/
theorem endOf_eq_replied {p : Packet} {rtt : Duration} :
    endOf lib network t cfg p = some (.replied rtt) ↔ Genuine lib network t cfg p ∧ p.rtt = rtt := by
  unfold endOf
  constructor
  · intro h
    split at h
    · cases h
    · rename_i message hmessage
      split at h
      · rename_i hours
        cases h
        refine ⟨⟨hours.1, ⟨message, hmessage, ?_⟩, fun hmin => not_lt.mp fun hlt => hours.2.2 ⟨hmin, hlt⟩⟩, rfl⟩
        cases hparse : lib.parseMessage t.proto message with
        | error err => rw [hparse] at hours; cases hours.2.1
        | ok type => rw [hparse] at hours; cases hours.2.1; rfl
      · cases h
  · rintro ⟨⟨hours, ⟨message, hmessage, hreply⟩, hslow⟩, rfl⟩
    simp only [hmessage]
    rw [if_pos ⟨hours, by rw [hreply]; rfl, fun h => absurd (hslow h.1) (not_le.mpr h.2)⟩]

/-- A packet ends the ping with a panic when it overruns. -/
theorem endOf_eq_panicked {p : Packet} : endOf lib network t cfg p = some .panicked ↔ Overruns network t p := by
  rw [← messageOf_eq_none]
  unfold endOf
  constructor
  · intro h
    split at h
    · assumption
    · split at h <;> cases h
  · intro h
    simp only [h]

/-- A packet ends the call with a reply or a panic, never by waiting. -/
theorem endOf_cases {p : Packet} {o : Outcome} (h : endOf lib network t cfg p = some o) :
    (∃ rtt, o = .replied rtt) ∨ o = .panicked := by
  unfold endOf at h
  split at h
  · exact .inr (Option.some.inj h).symm
  · split at h
    · exact .inl ⟨_, (Option.some.inj h).symm⟩
    · cases h

/-- A packet that does not end the ping is passed over. -/
theorem endOf_eq_none {p : Packet} : endOf lib network t cfg p = none ↔ ¬Ends lib network t cfg p := by
  constructor
  · rintro h (hgenuine | hover)
    · rw [endOf_eq_replied.mpr ⟨hgenuine, rfl⟩] at h
      cases h
    · rw [endOf_eq_panicked.mpr hover] at h
      cases h
  · intro h
    rw [Option.eq_none_iff_forall_not_mem]
    intro o ho
    obtain ⟨rtt, rfl⟩ | rfl := endOf_cases ho
    · exact h (.inl (endOf_eq_replied.mp ho).1)
    · exact h (.inr (endOf_eq_panicked.mp ho))

/-- A reply is that of the first packet that ends the ping. -/
theorem findSome_replied {packets : List Packet} {rtt : Duration} :
    packets.findSome? (endOf lib network t cfg) = some (.replied rtt) ↔
      ∃ p, FirstEnd lib network t cfg packets p ∧ Genuine lib network t cfg p ∧ p.rtt = rtt := by
  simp only [List.findSome?_eq_some_iff, endOf_eq_replied, endOf_eq_none, FirstEnd]
  constructor
  · rintro ⟨before, p, after, heq, ⟨hgenuine, hrtt⟩, hbefore⟩
    exact ⟨p, ⟨before, after, heq, .inl hgenuine, hbefore⟩, hgenuine, hrtt⟩
  · rintro ⟨p, ⟨before, after, heq, -, hbefore⟩, hgenuine, hrtt⟩
    exact ⟨before, p, after, heq, ⟨hgenuine, hrtt⟩, hbefore⟩

/-- So is a panic. -/
theorem findSome_panicked {packets : List Packet} : packets.findSome? (endOf lib network t cfg) = some .panicked ↔
    ∃ p, FirstEnd lib network t cfg packets p ∧ Overruns network t p := by
  simp only [List.findSome?_eq_some_iff, endOf_eq_panicked, endOf_eq_none, FirstEnd]
  constructor
  · rintro ⟨before, p, after, heq, hover, hbefore⟩
    exact ⟨p, ⟨before, after, heq, .inr hover, hbefore⟩, hover⟩
  · rintro ⟨p, ⟨before, after, heq, -, hbefore⟩, hover⟩
    exact ⟨before, p, after, heq, hover, hbefore⟩

/-! ## The reads of an attempt -/

/-- A packet that does not end the call changes nothing but the last error and type, which the read error
that ends the loop replaces. -/
theorem readLoop_eq (readErr : String) (packets : List Packet) (last : Last) :
    (∃ o, packets.findSome? (endOf lib network t cfg) = some o ∧ readLoop lib network t cfg readErr packets last = o) ∨
      (packets.findSome? (endOf lib network t cfg) = none ∧
        ∃ type, readLoop lib network t cfg readErr packets last = .waiting ⟨some readErr, type⟩) := by
  induction packets generalizing last with
  | nil => exact .inr ⟨rfl, last.type, rfl⟩
  | cons p packets ih =>
    rw [List.findSome?_cons, readLoop]
    unfold endOf
    cases messageOf network t p with
    | none => exact .inl ⟨.panicked, rfl, rfl⟩
    | some message =>
      simp only
      by_cases hstray : stray network t p = true
      · rw [if_pos hstray, if_neg (by simp [hstray])]
        exact ih last
      rw [if_neg hstray, Bool.not_eq_true] at *
      cases lib.parseMessage t.proto message with
      | error err =>
        rw [if_neg (by simp [Except.toOption])]
        exact ih _
      | ok type =>
        simp only
        by_cases htype : type = t.replyType
        · by_cases hfast : 0 < cfg.minRTT ∧ p.rtt < cfg.minRTT
          · rw [if_pos htype, if_pos hfast, if_neg (fun h => h.2.2 hfast)]
            exact ih last
          · rw [if_pos htype, if_neg hfast, if_pos ⟨hstray, by rw [htype]; rfl, hfast⟩]
            exact .inl ⟨.replied p.rtt, rfl, rfl⟩
        · rw [if_neg htype, if_neg (fun h => htype (Option.some.inj h.2.1))]
          exact ih _

/-! ## The attempts -/

/-- The loop ends with the first packet heard that ends the ping, or goes through all of them. An attempt that hears
no reply leaves its own error, which later attempts replace by theirs. -/
theorem echoLoop_eq (deadline : Instant) (echoes : List Echo) (last : Last) :
    (∃ o, ((begun deadline echoes).flatMap (Echo.heard cfg deadline)).findSome? (endOf lib network t cfg) = some o ∧
        echoLoop lib network t cfg deadline echoes last = o) ∨
      (((begun deadline echoes).flatMap (Echo.heard cfg deadline)).findSome? (endOf lib network t cfg) = none ∧
        ∃ type, echoLoop lib network t cfg deadline echoes last =
            .waiting ⟨((begun deadline echoes).getLast?.map (Echo.lastErr cfg deadline)).or last.err, type⟩ ∧
          (begun deadline echoes = [] → type = last.type)) := by
  induction echoes generalizing last with
  | nil => exact .inr ⟨rfl, last.type, rfl, fun _ => rfl⟩
  | cons e echoes ih =>
    rw [echoLoop]
    by_cases hnow : e.now < deadline
    · have hbegun : begun deadline (e :: echoes) = e :: begun deadline echoes := List.takeWhile_cons_of_pos (decide_eq_true hnow)
      have hlast : ∀ l : Last, l.err = some (e.lastErr cfg deadline) →
          ((begun deadline echoes).getLast?.map (Echo.lastErr cfg deadline)).or l.err =
            ((e :: begun deadline echoes).getLast?.map (Echo.lastErr cfg deadline)).or last.err := by
        intro l hl
        rw [List.getLast?_cons, hl]
        cases (begun deadline echoes).getLast? <;> rfl
      rw [if_pos hnow, hbegun, List.flatMap_cons, List.findSome?_append]
      cases hwrite : e.writeErr with
      | some err =>
        have hheard : e.heard cfg deadline = [] := if_neg (by rw [hwrite]; exact Option.some_ne_none err)
        rw [hheard, List.findSome?_nil, Option.none_or]
        obtain h | ⟨hnone, type, heq, -⟩ := ih { last with err := some err }
        · exact .inl h
        · refine .inr ⟨hnone, type, ?_, fun h => absurd h (List.cons_ne_nil _ _)⟩
          exact heq.trans (by rw [hlast { last with err := some err } (by rw [Echo.lastErr, hwrite]; rfl)])
      | none =>
        have hheard : e.heard cfg deadline = (e.reads (e.readDeadline cfg deadline)).1 := if_pos hwrite
        rw [hheard]
        obtain ⟨o, hsome, heq⟩ | ⟨hnone, type, heq⟩ :=
          @readLoop_eq lib network t cfg (e.reads (e.readDeadline cfg deadline)).2
            (e.reads (e.readDeadline cfg deadline)).1 last
        · refine .inl ⟨o, by rw [hsome]; rfl, ?_⟩
          simp only [heq]
          obtain ⟨p, -, hp⟩ := List.exists_of_findSome?_eq_some hsome
          obtain ⟨rtt, rfl⟩ | rfl := endOf_cases hp <;> rfl
        · rw [hnone, Option.none_or]
          simp only [heq]
          obtain h | ⟨hnone', type', heq', -⟩ := ih ⟨some (e.reads (e.readDeadline cfg deadline)).2, type⟩
          · exact .inl h
          · refine .inr ⟨hnone', type', ?_, fun h => absurd h (List.cons_ne_nil _ _)⟩
            rw [heq', hlast ⟨some (e.reads (e.readDeadline cfg deadline)).2, type⟩ (by rw [Echo.lastErr, hwrite]; rfl)]
    · have hbegun : begun deadline (e :: echoes) = [] := List.takeWhile_cons_of_neg (by simpa using hnow)
      rw [if_neg hnow, hbegun]
      exact .inr ⟨rfl, last.type, rfl, fun _ => rfl⟩

/-! ## The call -/

/-- The result for the first packet that ends the call, if there is one. -/
def resultFor (lib : Parsers) (lastErr : String) : Option Outcome → Option PingResult
  | some o => resultOf lib o
  | none => some ⟨false, 0, sanitizeNetErr lastErr⟩

/-- A call that gets as far as its attempts is decided by what it hears; no result names a type, since an attempt always leaves an
error. -/
theorem ping_eq {pingRaw ip : String} {net : Network} (ho : Opened lib pingRaw ip net t network) (ctxDeadline : Option Instant) :
    Ping lib pingRaw ctxDeadline ip cfg net =
      resultFor lib (net.lastErr ctxDeadline cfg) ((net.heard ctxDeadline cfg).findSome? (endOf lib network t cfg)) := by
  unfold Ping
  simp only [ho.parsed, ho.dialled, ho.marshalled]
  obtain ⟨o, hsome, heq⟩ | ⟨hnone, type, heq, htype⟩ :=
    @echoLoop_eq lib network t cfg (net.deadline ctxDeadline cfg)
      ((List.range pingCount).map net.echo) ⟨none, none⟩
  · rw [Network.heard, Network.attempts, hsome]
    unfold Network.deadline at heq
    rw [heq]
    rfl
  · rw [Network.heard, Network.attempts, hnone, Network.lastErr, Network.attempts]
    unfold Network.deadline at heq
    rw [heq]
    unfold Network.deadline at htype ⊢
    cases hlast : (begun (ctxDeadline.getD (net.now + cfg.pingBudget)) ((List.range pingCount).map net.echo)).getLast? with
    | some e => rfl
    | none =>
      rw [htype (List.getLast?_eq_none_iff.mp hlast)]
      rfl

/-! ## The theorems -/

/-- A call passes with the first packet that ends it, when that is a genuine reply, and with its round trip time. A call that
hears nothing of the kind fails with the error of its last attempt. -/
theorem ping_first_reply (pingRaw ip : String) (net : Network) (ctxDeadline : Option Instant)
    (ho : Opened lib pingRaw ip net t network) :
    (∀ rttMs, Ping lib pingRaw ctxDeadline ip cfg net = some ⟨true, rttMs, ""⟩ ↔
      ∃ p, FirstEnd lib network t cfg (net.heard ctxDeadline cfg) p ∧ Genuine lib network t cfg p ∧ milliseconds p.rtt = rttMs) ∧
    ∀ err, Ping lib pingRaw ctxDeadline ip cfg net = some ⟨false, 0, err⟩ ↔
      (∀ p ∈ net.heard ctxDeadline cfg, ¬Ends lib network t cfg p) ∧ err = sanitizeNetErr (net.lastErr ctxDeadline cfg) := by
  rw [ping_eq ho]
  cases hfirst : (net.heard ctxDeadline cfg).findSome? (endOf lib network t cfg) with
  | none =>
    have hnone : ∀ p ∈ net.heard ctxDeadline cfg, ¬Ends lib network t cfg p := fun p hp =>
      endOf_eq_none.mp (List.findSome?_eq_none_iff.mp hfirst p hp)
    refine ⟨fun rttMs => iff_of_false ?_ ?_, fun err => ?_⟩
    · simp [resultFor]
    · rintro ⟨p, ⟨before, after, heq, hends, -⟩, -, -⟩
      exact hnone p (heq ▸ by simp) hends
    · simp only [resultFor, Option.some.injEq, PingResult.mk.injEq, true_and]
      exact ⟨fun h => ⟨hnone, h.symm⟩, fun h => h.2.symm⟩
  | some o =>
    obtain ⟨p, hp, hpo⟩ := List.exists_of_findSome?_eq_some hfirst
    have hends : ¬∀ p ∈ net.heard ctxDeadline cfg, ¬Ends lib network t cfg p := fun h => by
      rw [endOf_eq_none.mpr (h p hp)] at hpo
      cases hpo
    obtain ⟨rtt, rfl⟩ | rfl := endOf_cases hpo
    · refine ⟨fun rttMs => ?_, fun err => iff_of_false (by simp [resultFor, resultOf]) fun h => hends h.1⟩
      simp only [resultFor, resultOf, Option.some.injEq, PingResult.mk.injEq, true_and, and_true]
      obtain ⟨q, hq, hgenuine, hrtt⟩ := findSome_replied.mp hfirst
      constructor
      · exact fun h => ⟨q, hq, hgenuine, by rw [hrtt, h]⟩
      · rintro ⟨q', hq', hgenuine', rfl⟩
        have h := findSome_replied.mpr ⟨q', hq', hgenuine', rfl⟩
        rw [hfirst] at h
        cases h
        rfl
    · refine ⟨fun rttMs => iff_of_false (by simp [resultFor, resultOf]) ?_,
        fun err => iff_of_false (by simp [resultFor, resultOf]) fun h => hends h.1⟩
      rintro ⟨q, hq, hgenuine, -⟩
      have h := findSome_replied.mpr ⟨q, hq, hgenuine, rfl⟩
      rw [hfirst] at h
      cases h

end

/-! A scanner pings 8.8.8.8 on a raw socket while another worker's reply comes in; its own reply follows. -/

/-- The address 8.8.8.8. -/
def sampleTarget : Target := ⟨⟨[8, 8, 8, 8], .inl rfl⟩, ""⟩

/-- Parsers that know one address, and a message by its first byte. -/
def sampleParsers : Parsers where
  parseAddr := fun ip => if ip = "8.8.8.8" then .ok sampleTarget else .error "unable to parse IP"
  parseMessage := fun _ message => match message with
    | type :: _ :: _ :: _ :: _ => .ok type
    | _ => .error "message too short"
  typeName := fun _ => "echo"

/-- The packets of the first attempt: a reply of 8.8.4.4, and after 40 ms the reply of 8.8.8.8. -/
def samplePackets : List Packet :=
  [⟨some [8, 8, 4, 4], [0, 0, 0, 0], 10000000⟩, ⟨some [8, 8, 8, 8], [0, 0, 0, 0], 40000000⟩]

def sampleNetwork : Network where
  listen := fun _ => none
  now := 0
  marshalErr := none
  echo := fun _ => ⟨0, none, 0, fun _ => (samplePackets, "i/o timeout")⟩

/-- A reply between strays is the one that counts. -/
theorem ping_first_reply_sample : Ping sampleParsers "" none "8.8.8.8" ⟨0, 20000000⟩ sampleNetwork = some ⟨true, 40, ""⟩ := by
  have ho : Opened sampleParsers "" "8.8.8.8" sampleNetwork sampleTarget .raw := ⟨rfl, rfl, rfl⟩
  refine ((ping_first_reply "" "8.8.8.8" sampleNetwork none ho).1 40).mpr ?_
  have hreply : Genuine sampleParsers .raw sampleTarget ⟨0, 20000000⟩ ⟨some [8, 8, 8, 8], [0, 0, 0, 0], 40000000⟩ :=
    ⟨rfl, ⟨[0, 0, 0, 0], rfl, rfl⟩, by decide⟩
  have hheard : sampleNetwork.heard none ⟨0, 20000000⟩ = samplePackets ++ (samplePackets ++ samplePackets) := rfl
  rw [hheard]
  refine ⟨_, ⟨[⟨some [8, 8, 4, 4], [0, 0, 0, 0], 10000000⟩], samplePackets ++ samplePackets, rfl, .inl hreply, ?_⟩, hreply, rfl⟩
  intro q hq
  cases List.mem_singleton.mp hq
  exact endOf_eq_none.mp rfl

/-- A ping panics exactly when, on a raw socket and for an IPv4 address, the first packet that ends it is one whose first byte
announces a longer header than there are bytes, whoever sent it. -/
theorem ping_panics_iff (lib : Parsers) (pingRaw ip : String) (ctxDeadline : Option Instant) (cfg : PingConfig) (net : Network) :
    Ping lib pingRaw ctxDeadline ip cfg net = none ↔ ∃ t network, Opened lib pingRaw ip net t network ∧
      ∃ p, FirstEnd lib network t cfg (net.heard ctxDeadline cfg) p ∧ Overruns network t p := by
  constructor
  · intro h
    cases hparse : lib.parseAddr ip with
    | error err => simp [Ping, hparse] at h
    | ok t =>
      cases hdial : dial pingRaw net with
      | error err => simp [Ping, hparse, hdial] at h
      | ok network =>
        cases hmarshal : net.marshalErr with
        | some err => simp [Ping, hparse, hdial, hmarshal] at h
        | none =>
          have ho : Opened lib pingRaw ip net t network := ⟨hparse, hdial, hmarshal⟩
          refine ⟨t, network, ho, findSome_panicked.mp ?_⟩
          rw [ping_eq ho] at h
          cases hfirst : (net.heard ctxDeadline cfg).findSome? (endOf lib network t cfg) with
          | none => rw [hfirst] at h; cases h
          | some o =>
            obtain ⟨p, -, hpo⟩ := List.exists_of_findSome?_eq_some hfirst
            obtain ⟨rtt, rfl⟩ | rfl := endOf_cases hpo
            · rw [hfirst] at h
              cases h
            · rfl
  · rintro ⟨t, network, ho, hfirst⟩
    rw [ping_eq ho, findSome_panicked.mpr hfirst]
    rfl

/-! ## Stray packets -/

/-- An attempt that reads only the packets that are kept. -/
def Echo.keep (keep : Packet → Bool) (e : Echo) : Echo := { e with reads := fun d => ((e.reads d).1.filter keep, (e.reads d).2) }

/-- The network with only the packets that are kept. -/
def Network.keep (keep : Packet → Bool) (net : Network) : Network := { net with echo := fun i => (net.echo i).keep keep }

section

variable (keep : Packet → Bool) (ctxDeadline : Option Instant) (cfg : PingConfig) (net : Network)

/-- A filter of the packets filters those heard. -/
theorem Echo.heard_keep (deadline : Instant) (e : Echo) :
    (e.keep keep).heard cfg deadline = (e.heard cfg deadline).filter keep := by
  unfold Echo.heard
  by_cases h : e.writeErr = none
  · rw [if_pos h, if_pos (show (e.keep keep).writeErr = none from h)]
    rfl
  · rw [if_neg h, if_neg (show ¬(e.keep keep).writeErr = none from h)]
    rfl

/-- It filters every attempt. -/
theorem attempts_keep : (net.keep keep).attempts ctxDeadline cfg = (net.attempts ctxDeadline cfg).map (Echo.keep keep) := by
  have hmap : (List.range pingCount).map (net.keep keep).echo = ((List.range pingCount).map net.echo).map (Echo.keep keep) :=
    List.map_map.symm
  unfold Network.attempts begun
  rw [hmap, List.takeWhile_map]
  rfl

/-- It filters what is heard in all of them. -/
theorem heard_keep : (net.keep keep).heard ctxDeadline cfg = (net.heard ctxDeadline cfg).filter keep := by
  unfold Network.heard
  rw [attempts_keep, List.flatMap_map, List.filter_flatMap]
  exact List.flatMap_congr fun e _ => Echo.heard_keep keep cfg _ e

/-- It leaves the last error alone. -/
theorem lastErr_keep : (net.keep keep).lastErr ctxDeadline cfg = net.lastErr ctxDeadline cfg := by
  unfold Network.lastErr
  rw [attempts_keep, List.getLast?_map, Option.map_map]
  rfl

end

/-- Leaving out packets that do not end the call does not change how it ends. -/
theorem findSome_filter {lib : Parsers} {network : Socket} {t : Target} {cfg : PingConfig} {keep : Packet → Bool}
    (hkeep : ∀ p, Ends lib network t cfg p → keep p = true) (packets : List Packet) :
    (packets.filter keep).findSome? (endOf lib network t cfg) = packets.findSome? (endOf lib network t cfg) := by
  induction packets with
  | nil => rfl
  | cons p packets ih =>
    by_cases hp : keep p = true
    · rw [List.filter_cons_of_pos hp, List.findSome?_cons, List.findSome?_cons, ih]
    · have hnone : endOf lib network t cfg p = none := endOf_eq_none.mpr fun h => hp (hkeep p h)
      rw [List.filter_cons_of_neg hp, List.findSome?_cons, hnone]
      exact ih

/-- A ping gives the same result with and without any packets that do not end it: replies to other pings and other messages use up
no attempt and leave no trace. -/
theorem ping_ignores_strays (lib : Parsers) (pingRaw ip : String) (ctxDeadline : Option Instant)
    (cfg : PingConfig) (net : Network)
    (keep : Packet → Bool)
    (hkeep : ∀ t network, Opened lib pingRaw ip net t network → ∀ p, Ends lib network t cfg p → keep p = true) :
    Ping lib pingRaw ctxDeadline ip cfg (net.keep keep) = Ping lib pingRaw ctxDeadline ip cfg net := by
  by_cases ho : ∃ t network, Opened lib pingRaw ip net t network
  · obtain ⟨t, network, ho⟩ := ho
    have ho' : Opened lib pingRaw ip (net.keep keep) t network := ⟨ho.parsed, ho.dialled, ho.marshalled⟩
    rw [ping_eq ho, ping_eq ho', heard_keep, lastErr_keep, findSome_filter (hkeep t network ho)]
  · -- Before its attempts a call reads nothing.
    unfold Ping
    cases hparse : lib.parseAddr ip with
    | error err => rfl
    | ok t =>
      have hdial : dial pingRaw (net.keep keep) = dial pingRaw net := rfl
      rw [hdial]
      cases hdial : dial pingRaw net with
      | error err => rfl
      | ok network =>
        cases hmarshal : net.marshalErr with
        | some err => simp only [show (net.keep keep).marshalErr = some err from hmarshal]
        | none => exact absurd ⟨t, network, hparse, hdial, hmarshal⟩ ho

/-- The ping of 8.8.8.8 goes the same way when it hears its own replies only. -/
theorem ping_ignores_strays_sample :
    Ping sampleParsers "" none "8.8.8.8" ⟨0, 20000000⟩
        (sampleNetwork.keep fun p => (endOf sampleParsers .raw sampleTarget ⟨0, 20000000⟩ p).isSome) =
      Ping sampleParsers "" none "8.8.8.8" ⟨0, 20000000⟩ sampleNetwork := by
  refine ping_ignores_strays sampleParsers "" "8.8.8.8" none ⟨0, 20000000⟩ sampleNetwork _ ?_
  rintro t network ⟨hparse, hdial, -⟩ p hends
  cases hparse
  cases hdial
  exact Option.isSome_iff_ne_none.mpr fun hnone => endOf_eq_none.mp hnone hends

end Gwsdb.Recheck
