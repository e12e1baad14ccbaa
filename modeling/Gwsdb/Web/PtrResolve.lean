import Gwsdb.Lib.BoundedPool
import Gwsdb.Lib.Transition
import Gwsdb.Store.Lookups

/-!
# PTR lookups of the browser

`public/static/ptrResolve.js`: a page looks up the hostnames of IPs the server has none for. At most `CONCURRENCY` requests are in
flight, the others wait in a queue, and results are kept in a cache that pages share through `localStorage`. Each call of
`resolvePTR`, each result that comes and each timer is a step. The logs of a page say what it has done; no step reads them.
-/

namespace Gwsdb.Web

open BoundedPool (Pool)
open Gwsdb.Net (cutDouble parts reverseNibblesDotted)
open Gwsdb.Store (DoHAnswer PTRResult ptrAnswer dedupeSorted)
open JsNumber (isDigit)
open Keyed (Table)

/-! ## Names -/

namespace PtrResolve

/-- The groups of an IPv6 text as this file takes them apart: a text without `::` has eight, the
others are filled up with zeros. -/
def groupsOf (ip : List Char) : Option (List (List Char)) :=
  match cutDouble ip with
  | none => if (parts ip).length ≠ 8 then none else some (parts ip)
  | some (head, tail) =>
    if 8 ≤ (parts head).length + (parts tail).length then none
    else some (parts head ++ List.replicate (8 - (parts head).length - (parts tail).length) ['0'] ++ parts tail)

/-- `expandIPv6` of this file: a zone is cut off, a group may be empty, and a second `::` gives such a group. -/
def expandIPv6 (ip : List Char) : Option (List Char) :=
  (groupsOf (ip.takeWhile (· ≠ '%'))).bind fun groups =>
    if groups.all fun g => g.length ≤ 4 && g.all (isDigit 16) then
      some (groups.flatMap fun g => (g.leftpad 4 '0').map Char.toLower)
    else none

/-- `reverseName` of this file. -/
def reverseName (ip : List Char) : Option (List Char) :=
  if '.' ∈ ip ∧ ':' ∉ ip then
    match ip.splitOn '.' with
    | [a, b, c, d] => some (d ++ '.' :: c ++ '.' :: b ++ '.' :: a ++ ".in-addr.arpa".toList)
    | _ => none
  else (expandIPv6 ip).map fun full => reverseNibblesDotted full ++ ".ip6.arpa".toList

end PtrResolve

/-! ## Lookups -/

/-- What the request of a lookup gives: nothing after an error or for a status that is not a success, otherwise the `Answer` of
the body. Data that is missing is the empty text. -/
abbrev DoHJson := Option (Option (List (DoHAnswer Nat)))

/-- `resolveLive`. -/
def resolveLive (ip : String) (json : DoHJson) : PTRResult Nat :=
  match PtrResolve.reverseName ip.toList, json with
  | some _, some answer =>
    let (hostnames, minSeconds) := (answer.getD []).foldl ptrAnswer ([], 0)
    ⟨dedupeSorted hostnames, minSeconds, 0 < (dedupeSorted hostnames).length⟩
  | _, _ => ⟨[], 0, false⟩

/-- `MIN_TTL_SECONDS`. -/
def MIN_TTL_SECONDS : Nat := 60 * 60

/-- `CONCURRENCY`. -/
def CONCURRENCY : Nat := 24

/-- What `resolvePTR` resolves to. -/
structure PtrAnswer where
  hostnames : List String
  ok : Bool
  deriving DecidableEq

/-- An entry of the cache, with the moment it expires. -/
structure PtrEntry extends PtrAnswer where
  exp : Nat
  deriving DecidableEq

/-- The cache, by IP. -/
abbrev PtrCache := Table String PtrEntry

/-- A call of `resolvePTR`, by its number in the page. -/
structure PtrItem where
  id : Nat
  ip : String
  deriving DecidableEq

/-- A lookup that has ended, with its moment. -/
structure PtrLookup where
  ip : String
  json : DoHJson
  moment : Nat

/-- What a lookup answers. -/
def PtrLookup.answer (l : PtrLookup) : PtrAnswer := ⟨(resolveLive l.ip l.json).hostnames, (resolveLive l.ip l.json).ok⟩

/-- What a lookup leaves in the cache. -/
def PtrLookup.entry (l : PtrLookup) : PtrEntry :=
  { l.answer with exp := l.moment + max (resolveLive l.ip l.json).ttlSeconds MIN_TTL_SECONDS * 1000 }

/-! ## Pages -/

/-- A page: its copy of the cache, whether a write is scheduled, the pool of its lookups, and the number of calls so far. Its
logs: the calls that went to the pool, the answers out of the cache and out of lookups with their moments, and the lookups. -/
structure PtrPage where
  memCache : Option PtrCache
  writeScheduled : Bool
  pool : Pool PtrItem
  calls : Nat
  asked : List PtrItem
  hits : List (PtrItem × PtrAnswer × Nat)
  resolved : List (PtrItem × PtrAnswer × Nat)
  lookups : List PtrLookup

/-- A page that was opened. -/
def PtrPage.opened : PtrPage := ⟨none, false, Pool.empty, 0, [], [], [], []⟩

namespace PtrPage

/-- `loadCache`: what `localStorage` holds is read once; nothing is there when it holds nothing that can be read. -/
def loadCache (p : PtrPage) (stored : Option PtrCache) : PtrCache := p.memCache.getD (stored.getD Table.empty)

/-- The entry of an IP that has not expired. -/
def cached (p : PtrPage) (stored : Option PtrCache) (now : Nat) (ip : String) : Option PtrEntry :=
  ((p.loadCache stored).get? ip).filter fun e => decide (now < e.exp)

/-- `resolvePTR`: the answer out of the cache, or a new item of the queue and `pump`. -/
def resolvePTR (p : PtrPage) (stored : Option PtrCache) (now : Nat) (ip : String) : PtrPage :=
  let p' := { p with memCache := some (p.loadCache stored), calls := p.calls + 1 }
  match p.cached stored now ip with
  | some e => { p' with hits := p.hits ++ [(⟨p.calls, ip⟩, e.toPtrAnswer, now)] }
  | none => { p' with asked := p.asked ++ [⟨p.calls, ip⟩], pool := p.pool.submit CONCURRENCY ⟨p.calls, ip⟩ }

/-- The callback of `startJob`: the result is cached, a write scheduled, the item answered, and `pump` called. -/
def finishJob (p : PtrPage) (stored : Option PtrCache) (now : Nat) (k : Nat) (json : DoHJson) : Option PtrPage :=
  p.pool.running[k]?.map fun item =>
    let l : PtrLookup := ⟨item.ip, json, now⟩
    { p with
      memCache := some ((p.loadCache stored).put item.ip l.entry)
      writeScheduled := true
      resolved := p.resolved ++ [(item, l.answer, now)]
      lookups := p.lookups ++ [l]
      pool := p.pool.finish CONCURRENCY k }

/-- The cache without what has expired. -/
def pruned (p : PtrPage) (stored : Option PtrCache) (now : Nat) : PtrCache :=
  (p.loadCache stored).filter fun _ e => decide (now < e.exp)

/-- The timer of `scheduleWrite` has cleared the page's copy. -/
def written (p : PtrPage) (stored : Option PtrCache) (now : Nat) : PtrPage :=
  { p with writeScheduled := false, memCache := some (p.pruned stored now) }

end PtrPage

/-- The pages of a browser, the clock, and what `localStorage` holds. -/
structure PtrBrowser where
  now : Nat
  stored : Option PtrCache
  pages : List PtrPage

/-- A browser that has stored nothing so far. -/
def PtrBrowser.started (now : Nat) : PtrBrowser := ⟨now, none, []⟩

/-- The steps. Time goes on; a page is opened; a page asks for an IP; a lookup of a page ends; the timer of a page fires, and the
storage takes the cache or refuses it; the storage is cleared. -/
inductive PtrAct where
  | tick (ms : Nat)
  | openPage
  | resolve (i : Nat) (ip : String)
  | finish (i k : Nat) (json : DoHJson)
  | write (i : Nat) (taken : Bool)
  | clear

/-- One step. -/
def nextPtr (b : PtrBrowser) : PtrAct → Option PtrBrowser
  | .tick ms => some { b with now := b.now + ms }
  | .openPage => some { b with pages := b.pages ++ [.opened] }
  | .resolve i ip => b.pages[i]?.map fun p => { b with pages := b.pages.set i (p.resolvePTR b.stored b.now ip) }
  | .finish i k json => do
    let p ← b.pages[i]?
    let p' ← p.finishJob b.stored b.now k json
    some { b with pages := b.pages.set i p' }
  | .write i taken => do
    let p ← b.pages[i]?
    if p.writeScheduled then
      some { b with
        stored := if taken then some (p.pruned b.stored b.now) else b.stored
        pages := b.pages.set i (p.written b.stored b.now) }
    else none
  | .clear => some { b with stored := none }

end Gwsdb.Web
