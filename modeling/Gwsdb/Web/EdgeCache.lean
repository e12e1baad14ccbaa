import Gwsdb.Store.PtrCache
import Gwsdb.Web.Requests

/-!
# Answers behind the edge cache

`/api/pool` and `/` read the version of the pool, look for an answer under their URL with the version in it, and load
the pool where there is none (`loadPool` of `src/pool.ts`). Each D1 query and each use of a cache is a call; what the
edge cache holds is of any type.
-/

namespace Gwsdb.Web

open Gwsdb.Store
open Interleave (Prog Service)
open Keyed (Table)

/-! ## Search parameters -/

/-- `URLSearchParams`: names and values in the order of the URL. -/
abbrev SearchParams := List (String × String)

namespace SearchParams

/-- `get`: the value of the first parameter of a name. -/
def get (params : SearchParams) (name : String) : Option String := (params.find? (·.1 = name)).map (·.2)

/-- `getAll`. -/
def getAll (params : SearchParams) (name : String) : List String := (params.filter (·.1 = name)).map (·.2)

/-- `set`: the first parameter of the name takes the value and the others go, or a new one comes last. -/
def set (params : SearchParams) (name value : String) : SearchParams :=
  match params with
  | [] => [(name, value)]
  | p :: params => if p.1 = name then (name, value) :: params.filter (·.1 ≠ name) else p :: SearchParams.set params name value

/-- `delete`. -/
def delete (params : SearchParams) (name : String) : SearchParams := params.filter (·.1 ≠ name)

end SearchParams

/-- The family a request asks for; none for any other value. -/
def familyOf (params : SearchParams) : Option Nat :=
  match params.get "family" with
  | some "4" => some 4
  | some "6" => some 6
  | _ => none

/-! ## Calls -/

/-- A call: one of the store, the rows of the pool, or a use of the edge cache. -/
inductive EdgeCall (δ : Type) where
  | store (e : Store.Call)
  | listKnownIPs (opts : ListKnownIPsOptions)
  | cacheMatch (key : SearchParams)
  /-- `context.waitUntil(cache.put(..))`: the entry comes into the cache at some later time. -/
  | waitUntilPut (key : SearchParams) (data : δ)

/-- What a call replies. -/
abbrev EdgeReply (δ : Type) : EdgeCall δ → Type
  | .store e => Reply e
  | .listKnownIPs _ => List IPStatus
  | .cacheMatch _ => Option δ
  | .waitUntilPut _ _ => Unit

/-- The caches of a data centre: the answers, those on their way in, and the totals of `overview`. -/
structure EdgeCaches (δ : Type) where
  cache : Table SearchParams δ
  puts : List (SearchParams × δ)
  totals : Option (Nat × Nat)

variable {δ : Type}

/-- The caches at the first moment. -/
def EdgeCaches.empty : EdgeCaches δ := ⟨Table.empty, [], none⟩

/-- The reply of a call at a state of the site, and the caches after it. -/
def answerEdge (s : Store.Site) : Service (EdgeCall δ) (EdgeReply δ) (EdgeCaches δ)
  | .store e, edge =>
    ((serve e { s with totals := edge.totals }).1, { edge with totals := (serve e { s with totals := edge.totals }).2.totals })
  | .listKnownIPs opts, edge => (s.db.listKnownIPs opts, edge)
  | .cacheMatch key, edge => (edge.cache.get? key, edge)
  | .waitUntilPut key data, edge => ((), { edge with puts := edge.puts ++ [(key, data)] })

/-- A program of such calls. -/
abbrev EdgeProgram (δ α : Type) := Prog (EdgeCall δ) (EdgeReply δ) String α

/-- One call. -/
abbrev askEdge (e : EdgeCall δ) : EdgeProgram δ (EdgeReply δ e) := Prog.perform e

/-- A program of the store, as a part of one of these. -/
def ofStore {α : Type} : Program α → EdgeProgram δ α
  | .ret a => .ret a
  | .fail e => .fail e
  | .call e k => .call (.store e) fun r => ofStore (k r)

/-! ## `loadPool` -/

/-- `statusFor` on an `IPStatus`. -/
def statusOf (st : IPStatus) : String := if !st.hasCheck then "-" else if st.lastCheckOk then "Reachable" else "Unreachable"

/-- What `overview` returns. -/
abbrev Stats := (Nat × Nat) × Option (String × Option String)

/-- `sortBy` of `loadPool`: a column of the query, or `country`, which the rows are sorted by afterwards. -/
inductive DbKey where
  | column (c : SortColumn)
  | country

/-- `LoadPoolOptions`. -/
structure LoadPoolOptions where
  sortBy : Option DbKey
  sortDesc : Option Bool
  family : Option Nat

/-- The options of `listKnownIPs` that `loadPool` passes on. -/
def LoadPoolOptions.known (opts : LoadPoolOptions) : ListKnownIPsOptions :=
  let sortBy := match opts.sortBy.getD (.column .lastSeen) with
    | .column c => some c
    | .country => none
  ⟨false, opts.family, "", sortBy, opts.sortDesc.getD true, none⟩

end Gwsdb.Web
