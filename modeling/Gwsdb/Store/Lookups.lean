import Gwsdb.Lib.RunningMin
import Gwsdb.Net.DnsQuery
import Gwsdb.Store.PtrQueries

/-!
# Lookups over HTTPS

`queryDoH` of `src/doh.ts`, and `lookupPTR`, `lookupHost` and `lookupTXT` of `src/resolver.ts`. What the resolver sends is an
argument. TTLs are of any linear order with a least value, which is their zero.
-/

namespace Gwsdb.Store

open RunningMin (observe)
open Gwsdb.Net (normalizeIPAddress reverseName)

variable {τ : Type} [LinearOrder τ] [OrderBot τ]

/-! ## Answers -/

/-- `DoHAnswer`. -/
structure DoHAnswer (τ : Type) where
  type : Nat
  TTL : τ
  data : String

/-- What a request to the resolver gives: an error thrown, another status than success, or a body with
its status and its answers. -/
inductive DoHReply (τ : Type) where
  | thrown (err : String)
  | refused (status : Nat)
  | body (Status : Nat) (Answer : Option (List (DoHAnswer τ)))

/-- `queryDoH`: the answers, none for a name that does not exist. -/
def queryDoH (dohUrl : String) : DoHReply τ → Except String (Option (List (DoHAnswer τ)))
  | .thrown err => if dohUrl = "" then .error "doh: no endpoint configured" else .error err
  | .refused status =>
    if dohUrl = "" then .error "doh: no endpoint configured"
    else .error ("doh " ++ dohUrl ++ ": unexpected status " ++ toString status)
  | .body status answer =>
    if dohUrl = "" then .error "doh: no endpoint configured"
    else if status = 3 then .ok none
    else if status ≠ 0 then .error ("doh " ++ dohUrl ++ ": status " ++ toString status)
    else .ok (some (answer.getD []))

/-! ## PTR -/

structure PTRResult (τ : Type) where
  hostnames : List String
  ttlSeconds : τ
  ok : Bool
  deriving DecidableEq

/-- One answer in the loop of `lookupPTR`: the hostnames and the least TTL so far. -/
def ptrAnswer (st : List String × τ) (a : DoHAnswer τ) : List String × τ :=
  if a.type ≠ 12 then st
  else if trimDot a.data = "" then st
  else (st.1 ++ [trimDot a.data], observe st.2 a.TTL)

/-- The result of `lookupPTR` for the answers of the resolver. -/
def ptrResult : Option (List (DoHAnswer τ)) → PTRResult τ
  | none => ⟨[], ⊥, false⟩
  | some answers =>
    let (hostnames, minSeconds) := answers.foldl ptrAnswer ([], ⊥)
    if hostnames.length = 0 then ⟨[], ⊥, false⟩ else ⟨dedupeSorted hostnames, minSeconds, true⟩

/-- `lookupPTR`. -/
def lookupPTR (dohUrl ip : String) (reply : DoHReply τ) : Except String (PTRResult τ) := do
  let _ ← reverseName ip.toList
  let answers ← queryDoH dohUrl reply
  return ptrResult answers

/-! ## Hosts -/

structure HostResult (τ : Type) where
  ipv4 : List String
  ipv6 : List String
  ttlSeconds : τ
  ok : Bool
  deriving DecidableEq

/-- One A answer in the loop of `lookupHost`. -/
def aAnswer (st : List String × τ) (a : DoHAnswer τ) : List String × τ :=
  if a.type = 1 then (st.1 ++ [a.data], observe st.2 a.TTL) else st

/-- One AAAA answer: an address counts when it is an IPv6 one, its TTL in any case. -/
def aaaaAnswer (st : List String × τ) (a : DoHAnswer τ) : List String × τ :=
  if a.type = 28 then
    (st.1 ++ (((normalizeIPAddress a.data.toList).filter fun ip => ':' ∈ ip).map String.ofList).toList, observe st.2 a.TTL)
  else st

/-- The result of `lookupHost` for the answers to both questions. -/
def hostResult (aAnswers aaaaAnswers : Option (List (DoHAnswer τ))) : HostResult τ :=
  let (ipv4, minSeconds) := (aAnswers.getD []).foldl aAnswer ([], ⊥)
  let (ipv6, minSeconds) := (aaaaAnswers.getD []).foldl aaaaAnswer ([], minSeconds)
  let dedupedV4 := dedupeSorted ipv4
  let dedupedV6 := dedupeSorted ipv6
  ⟨dedupedV4, dedupedV6, minSeconds, 0 < dedupedV4.length + dedupedV6.length⟩

/-- `lookupHost`. -/
def lookupHost (dohUrl : String) (aReply aaaaReply : DoHReply τ) : Except String (HostResult τ) := do
  let aAnswers ← queryDoH dohUrl aReply
  let aaaaAnswers ← queryDoH dohUrl aaaaReply
  return hostResult aAnswers aaaaAnswers

/-! ## TXT -/

/-- `split('" "').join("")`. -/
def joinQuoted : List Char → List Char
  | '"' :: ' ' :: '"' :: s => joinQuoted s
  | c :: s => c :: joinQuoted s
  | [] => []

/-- `replace(/^"|"$/g, "")`. -/
def trimQuotes (s : List Char) : List Char :=
  let s := if s.head? = some '"' then s.tail else s
  if s.getLast? = some '"' then s.dropLast else s

/-- `unwrapTXT`. -/
def unwrapTXT (data : String) : String := String.ofList (trimQuotes (joinQuoted data.toList))

structure TXTResult (τ : Type) where
  txts : List String
  ttlSeconds : τ
  ok : Bool
  deriving DecidableEq

/-- One answer in the loop of `lookupTXT`. -/
def txtAnswer (st : List String × τ) (a : DoHAnswer τ) : List String × τ :=
  if a.type ≠ 16 then st else (st.1 ++ [unwrapTXT a.data], observe st.2 a.TTL)

/-- The result of `lookupTXT` for the answers of the resolver. -/
def txtResult : Option (List (DoHAnswer τ)) → TXTResult τ
  | none => ⟨[], ⊥, false⟩
  | some answers =>
    let (txts, minSeconds) := answers.foldl txtAnswer ([], ⊥)
    if txts.length = 0 then ⟨[], ⊥, false⟩ else ⟨txts, minSeconds, true⟩

/-- `lookupTXT`. -/
def lookupTXT (dohUrl : String) (reply : DoHReply τ) : Except String (TXTResult τ) := do
  let answers ← queryDoH dohUrl reply
  return txtResult answers

end Gwsdb.Store
