import Gwsdb.Recheck.Sni
import Gwsdb.Scan.IpRange

/-!
# The ping gate

`internal/recheck/ping.go`. What the sockets and the clock do is an argument: for each attempt the time at which it begins,
how its write ends, and what the reads return up to a read deadline. A packet carries the time since its attempt began. The
parsers of `net/netip` and of `x/net/icmp` are arguments too. `none` is a panic: the slice that strips an IP header is
taken without a look at the length.
-/

namespace Gwsdb.Recheck

open Gwsdb.Scan (Addr second sanitizeNetErr)

/-- A reading of the clock, in nanoseconds. -/
abbrev Instant := Int

/-! ## Configuration -/

def pingCount : Nat := 3

def protocolICMP : Nat := 1
def protocolICMPv6 : Nat := 58

def pingTimeout : Duration := 2 * second

/-- `PingBudget`, the constant. -/
def defaultPingBudget : Duration := pingTimeout * pingCount

/-- `PingConfig`. -/
structure PingConfig where
  maxRTT : Duration
  minRTT : Duration

/-- `pingWindow`. -/
def PingConfig.pingWindow (c : PingConfig) : Duration := (if c.maxRTT ≤ 0 then defaultPingBudget else c.maxRTT).tdiv pingCount

/-- `PingBudget`, the method. -/
def PingConfig.pingBudget (c : PingConfig) : Duration := if 0 < c.maxRTT then c.maxRTT else defaultPingBudget

/-- `PingResult`. -/
structure PingResult where
  ok : Bool
  rttMs : Int
  err : String
  deriving DecidableEq, Repr

/-! ## Addresses -/

/-- `netip.Addr`, with its zone. -/
structure Target where
  addr : Addr
  zone : String

def v4InV6Prefix : List UInt8 := [0, 0, 0, 0, 0, 0, 0, 0, 0, 0, 0xff, 0xff]

/-- `net.ParseIP(addr.String())`: sixteen bytes, or nil for an address with a zone. -/
def Target.ip (t : Target) : List UInt8 :=
  if t.zone ≠ "" then [] else if t.addr.is4 then v4InV6Prefix ++ t.addr.bytes else t.addr.bytes

/-- `IP.Equal`. -/
def equal (ip x : List UInt8) : Bool :=
  if ip.length = x.length then ip = x
  else if ip.length = 4 ∧ x.length = 16 then x.take 12 = v4InV6Prefix && ip = x.drop 12
  else if ip.length = 16 ∧ x.length = 4 then ip.take 12 = v4InV6Prefix && ip.drop 12 = x
  else false

/-! ## The network -/

/-- The kinds of socket: `ip4:icmp` and `ip6:ipv6-icmp`, or `udp4` and `udp6`. -/
inductive Socket
  | raw
  | datagram
  deriving DecidableEq

/-- What a read returns: the sender when it is an `*net.IPAddr`, the bytes, and the time since the attempt began. -/
structure Packet where
  source : Option (List UInt8)
  payload : List UInt8
  rtt : Duration

/-- What an attempt meets: the clock before it, the error of the write and the clock after it, and what the reads up to a read
deadline return: packets, and in the end an error. -/
structure Echo where
  now : Instant
  writeErr : Option String
  written : Instant
  reads : Instant → List Packet × String

/-- What a call meets: the errors of `icmp.ListenPacket`, the clock, the error of marshalling the echo, and its attempts. -/
structure Network where
  listen : Socket → Option String
  now : Instant
  marshalErr : Option String
  echo : Nat → Echo

/-- The parsers: `netip.ParseAddr`, `icmp.ParseMessage` with the type of the message, and the name of a type. -/
structure Parsers where
  parseAddr : String → Except String Target
  parseMessage : Nat → List UInt8 → Except String UInt8
  typeName : UInt8 → String

/-! ## The reads of an attempt -/

/-- `proto`. -/
def Target.proto (t : Target) : Nat := if t.addr.is4 then protocolICMP else protocolICMPv6

/-- `replyType`: `ipv4.ICMPTypeEchoReply` or `ipv6.ICMPTypeEchoReply`. -/
def Target.replyType (t : Target) : UInt8 := if t.addr.is4 then 0 else 129

/-- The payload without an IPv4 header. -/
def stripHeader (payload : List UInt8) : Option (List UInt8) :=
  match payload with
  | b :: _ =>
    if 20 ≤ payload.length ∧ b >>> 4 = 4 then
      let headerLength := ((b &&& 0x0f) * 4).toNat
      if headerLength ≤ payload.length then some (payload.drop headerLength) else none
    else some payload
  | [] => some payload

/-- The message of a packet. -/
def messageOf (network : Socket) (t : Target) (p : Packet) : Option (List UInt8) :=
  if network = .raw ∧ t.addr.is4 then stripHeader p.payload else some p.payload

/-- Someone else's packet. -/
def stray (network : Socket) (t : Target) (p : Packet) : Bool :=
  match p.source with
  | some source => network = .raw && !equal source t.ip
  | none => false

/-- `lastErr` and `lastType`. -/
structure Last where
  err : Option String
  type : Option UInt8

/-- How the attempts go on: `Ping` returns with a reply, it panics, or the next attempt is due. -/
inductive Outcome
  | replied (rtt : Duration)
  | panicked
  | waiting (last : Last)

/-- The inner loop, over what the reads return. -/
def readLoop (lib : Parsers) (network : Socket) (t : Target) (cfg : PingConfig) (readErr : String) : List Packet → Last → Outcome
  | [], last => .waiting { last with err := some readErr }
  | p :: packets, last =>
    match messageOf network t p with
    | none => .panicked
    | some message =>
      if stray network t p then readLoop lib network t cfg readErr packets last
      else
        match lib.parseMessage t.proto message with
        | .error err => readLoop lib network t cfg readErr packets { last with err := some err }
        | .ok type =>
          if type = t.replyType then
            if 0 < cfg.minRTT ∧ p.rtt < cfg.minRTT then readLoop lib network t cfg readErr packets last
            else .replied p.rtt
          else readLoop lib network t cfg readErr packets { last with type := some type }

/-! ## The attempts -/

/-- The read deadline of an attempt: one window, and not past the deadline. -/
def Echo.readDeadline (cfg : PingConfig) (deadline : Instant) (e : Echo) : Instant := min (e.written + cfg.pingWindow) deadline

/-- The outer loop. -/
def echoLoop (lib : Parsers) (network : Socket) (t : Target) (cfg : PingConfig) (deadline : Instant) : List Echo → Last → Outcome
  | [], last => .waiting last
  | e :: echoes, last =>
    if e.now < deadline then
      match e.writeErr with
      | some err => echoLoop lib network t cfg deadline echoes { last with err := some err }
      | none =>
        let (packets, readErr) := e.reads (e.readDeadline cfg deadline)
        match readLoop lib network t cfg readErr packets last with
        | .waiting last => echoLoop lib network t cfg deadline echoes last
        | outcome => outcome
    else .waiting last

/-- The kinds of socket in the order in which they are tried; `GWSDB_PING_RAW=0` turns it round. -/
def socketOrder (pingRaw : String) : Socket × Socket := if pingRaw ≠ "0" then (.raw, .datagram) else (.datagram, .raw)

/-- The first socket that opens, or the error of the second. -/
def dial (pingRaw : String) (net : Network) : Except String Socket :=
  let (first, second) := socketOrder pingRaw
  match net.listen first with
  | none => .ok first
  | some _ =>
    match net.listen second with
    | none => .ok second
    | some err => .error err

/-- The result of a call whose attempts are over. -/
def resultOf (lib : Parsers) : Outcome → Option PingResult
  | .replied rtt => some ⟨true, milliseconds rtt, ""⟩
  | .panicked => none
  | .waiting last =>
    match last.err, last.type with
    | some err, _ => some ⟨false, 0, sanitizeNetErr err⟩
    | none, some type => some ⟨false, 0, "got icmp " ++ lib.typeName type⟩
    | none, none => some ⟨false, 0, sanitizeNetErr "i/o timeout"⟩

/-- `Ping`; `ctxDeadline` is the deadline of the caller's context. -/
def Ping (lib : Parsers) (pingRaw : String) (ctxDeadline : Option Instant) (ip : String) (cfg : PingConfig) (net : Network) :
    Option PingResult :=
  match lib.parseAddr ip with
  | .error err => some ⟨false, 0, "parse ip: " ++ err⟩
  | .ok t =>
    match dial pingRaw net with
    | .error err => some ⟨true, 0, "socket: " ++ err⟩
    | .ok network =>
      let deadline := ctxDeadline.getD (net.now + cfg.pingBudget)
      match net.marshalErr with
      | some err => some ⟨false, 0, "marshal: " ++ err⟩
      | none => resultOf lib (echoLoop lib network t cfg deadline ((List.range pingCount).map net.echo) ⟨none, none⟩)

end Gwsdb.Recheck
