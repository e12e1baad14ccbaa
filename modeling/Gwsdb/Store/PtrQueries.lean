import Gwsdb.Net.DnsWire
import Gwsdb.Store.PtrRefresh

/-!
# The answers of the resolver

What `pipelinePTRQueries` of `src/ptrRefresh.ts` does with one message of the connection, and `dedupeSorted` of `src/resolver.ts`.
-/

namespace Gwsdb.Store

open Keyed (Table)
open Gwsdb.Net (DNSAnswer parseMessage)

/-- `replace(/\.$/, "")`. -/
def trimDot (name : String) : String := if name.toList.getLast? = some '.' then String.ofList name.toList.dropLast else name

/-- `dedupeSorted`. The names of messages have no character after U+00FF, so that JavaScript sorts them by their characters. -/
def dedupeSorted (names : List String) : List String :=
  (((names.map trimDot).filter fun n => n ≠ "").foldl (fun out n => if n ∈ out then out else out ++ [n]) []).insertionSort (· ≤ ·)

/-- The least TTL, computed from zero on as the source does. -/
def minTTL (answers : List DNSAnswer) : Nat := answers.foldl (fun min a => if min = 0 ∨ a.ttl < min then a.ttl else min) 0

/-- `idToIP`: the queries of a pass are numbered from one. -/
def idToIP (ips : List String) (id : Nat) : Option String := if id = 0 then none else ips[id - 1]?

/-- One message: the results after it. A message that cannot be parsed is skipped, and so is one with
an id that nobody asked for. -/
def receive (ips : List String) (results : Table String Lookup) (msg : List UInt8) : Table String Lookup :=
  match parseMessage msg with
  | .error _ => results
  | .ok parsed =>
    match idToIP ips parsed.id with
    | none => results
    | some ip =>
      results.put ip
        { rcode := parsed.rcode
          hostnames := dedupeSorted ((parsed.answers.filter (·.type = 12)).map fun a => trimDot a.data)
          ttlSeconds := minTTL parsed.answers }

/-- The message is rejected: it does not parse, and no result comes of it. -/
def Rejected (msg : List UInt8) : Prop := (∃ e, parseMessage msg = .error e) ∧ ∀ ips results, receive ips results msg = results

theorem rejected_iff (msg : List UInt8) : Rejected msg ↔ ∃ e, parseMessage msg = .error e := by
  refine and_iff_left_of_imp ?_
  rintro ⟨e, h⟩ ips results
  rw [receive, h]

end Gwsdb.Store
