import Gwsdb.Lib.Framing
import Gwsdb.Net.DnsQuery
import Gwsdb.Store.PtrQueries

/-!
# The connection to the resolver

`pipelinePTRQueries` of `src/ptrRefresh.ts`: the queries of a pass, and what is made of the bytes that come back. The chunks that
the connection gives before its end or the deadline are an argument.
-/

namespace Gwsdb.Store

open Framing (Cutter)
open Gwsdb.Net (DNSResponse buildPTRQuery parseMessage setUint16)
open Keyed (Table)

/-- The first message of `recvBuf` and what comes after it: two bytes for its length, when they are there, and then as many. -/
def cutMessage (recvBuf : List UInt8) : Option (List UInt8 × List UInt8) :=
  (Dns.field 2 recvBuf 0).bind fun msgLen =>
    if recvBuf.length < 2 + msgLen then none else some ((recvBuf.drop 2).take msgLen, recvBuf.drop (2 + msgLen))

theorem cutMessage_eq_some {s msg rest : List UInt8} (h : cutMessage s = some (msg, rest)) :
    ∃ n, Dns.field 2 s 0 = some n ∧ 2 + n ≤ s.length ∧ msg = (s.drop 2).take n ∧ rest = s.drop (2 + n) := by
  obtain ⟨n, hn, h⟩ := Option.bind_eq_some_iff.1 h
  split at h
  · cases h
  · cases h
    exact ⟨n, hn, by omega, rfl, rfl⟩

/-- The messages of the connection, each after its length. -/
def messages : Cutter UInt8 (List UInt8) where
  cut := cutMessage
  shrinks := by
    intro s msg rest h
    obtain ⟨n, -, hle, -, rfl⟩ := cutMessage_eq_some h
    rw [List.length_drop]
    omega
  later := by
    intro s msg rest h t
    obtain ⟨n, hn, hle, rfl, rfl⟩ := cutMessage_eq_some h
    have hn' : Dns.field 2 (s ++ t) 0 = some n := by
      rw [← hn, ← @Dns.field_take_of_le 2 (s ++ t) 0 s.length (by omega), List.take_left]
    rw [cutMessage, hn', Option.bind_some, if_neg (by rw [List.length_append]; omega)]
    rw [List.drop_append_of_le_length (by omega), List.drop_append_of_le_length (by omega),
      List.take_append_of_le_length (by rw [List.length_drop]; omega)]

/-- The bytes of a message on the connection. -/
def framed (msg : List UInt8) : List UInt8 := setUint16 msg.length ++ msg

/-- The queries that are written, numbered from one. -/
def ptrQueries (ips : List String) : Except String (List (List UInt8)) :=
  ips.zipIdx.mapM fun (ip, i) => buildPTRQuery (i + 1) ip.toList

/-- `pipelinePTRQueries`: the queries are written, and then chunks are read until every one is answered. -/
def pipelinePTRQueries (ips : List String) (chunks : List (List UInt8)) : Except String (Table String Lookup) := do
  let _ ← ptrQueries ips
  return messages.read (receive ips) (fun results => ips.length ≤ results.keys.length) Table.empty [] chunks

/-- What is recorded of a message that parses. -/
def lookupOf (parsed : DNSResponse) : Lookup where
  rcode := parsed.rcode
  hostnames := dedupeSorted ((parsed.answers.filter (·.type = 12)).map fun a => trimDot a.data)
  ttlSeconds := minTTL parsed.answers

theorem receive_of_parsed {ips : List String} {msg : List UInt8} {parsed : DNSResponse} {ip : String}
    (hparsed : parseMessage msg = .ok parsed) (hip : idToIP ips parsed.id = some ip) (results : Table String Lookup) :
    receive ips results msg = results.put ip (lookupOf parsed) := by
  unfold receive
  rw [hparsed]
  simp only [hip]
  rfl

end Gwsdb.Store
