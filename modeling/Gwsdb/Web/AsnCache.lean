import Gwsdb.Net.IpAddr
import Gwsdb.Lib.Table
import Gwsdb.Lib.Transition
import Mathlib.Data.List.MinMax

/-!
# The cache of Google's prefixes

`lookupGoogleASN` of `src/dnsCache.ts` over `getASN` and `saveASN` of `src/store.ts`. A live lookup is answered from a routing
table: the longest announced prefix that contains the address. A lookup reads the table `asn_cache` first and stores what a live
one found, if it is Google's; a failure to store is only logged.
-/

namespace Gwsdb.Web

open Keyed (Table)
open Gwsdb.Net

/-! ## Live lookups -/

/-- `ASNInfo`: what a lookup tells of an address; `announced` is the CIDR text of its prefix. -/
structure ASNInfo where
  asn : Nat
  asName : String
  announced : String
  country : String
  deriving DecidableEq

/-- `isGoogleASN`. Only ASCII letters have an upper case that is a letter of the name looked for. -/
def isGoogleASN (info : ASNInfo) : Bool := decide ("GOOGLE".toList <:+: info.asName.toList.map Char.toUpper)

/-- A prefix announced by an AS, with the TTL of the records that tell of it. -/
structure Announcement where
  text : String
  addr : Addr
  len : Nat
  asn : Nat
  asName : String
  country : String
  ttlSeconds : Nat
  parsed : addrOf text.toList = some addr
  len_le : len ≤ width addr.isIPv6

namespace Announcement

/-- The prefix announced. -/
def block (r : Announcement) : Prefix := ⟨r.addr, r.len⟩

/-- What a lookup tells of an address of the prefix. -/
def info (r : Announcement) : ASNInfo := ⟨r.asn, r.asName, String.ofList (cidr r.text.toList r.len), r.country⟩

end Announcement

/-- The longest announced prefix that contains an address. -/
def live (routes : List Announcement) (ip : String) : Option Announcement :=
  (addrOf ip.toList).bind fun a => (routes.filter fun r => r.block.Contains a).argmax (·.len)

/-- `lookupASN`, answered from a routing table: what it tells, the TTL, and whether it found anything. -/
def lookupASN (routes : List Announcement) (ip : String) : ASNInfo × Nat × Bool :=
  match live routes ip with
  | some r => (r.info, r.ttlSeconds, true)
  | none => (⟨0, "", "", ""⟩, 0, false)

/-! ## The table -/

/-- A row of `asn_cache`, under its prefix text. -/
structure ASNCacheRow where
  isIPv6 : Bool
  rangeStart : List Char
  rangeEnd : List Char
  prefixLen : Nat
  asn : Option Nat
  asName : Option String
  country : Option String
  lookupOk : Bool
  ttlSeconds : Nat
  checkedAt : Int
  deriving DecidableEq

/-- `ASNCacheEntry`. -/
structure ASNCacheEntry extends ASNInfo where
  ip : String
  lookupOk : Bool
  ttlSeconds : Nat
  checkedAt : Int

/-- The row's range holds a point of a family. -/
def ASNCacheRow.Covers (row : ASNCacheRow) (isIPv6 : Bool) (point : List Char) : Prop :=
  row.isIPv6 = isIPv6 ∧ row.rangeStart ≤ point ∧ point ≤ row.rangeEnd

instance (row : ASNCacheRow) (isIPv6 : Bool) (point : List Char) : Decidable (row.Covers isIPv6 point) :=
  inferInstanceAs (Decidable (_ ∧ _))

/-- The query of `getASN`: of the rows whose range holds the point, the one of the longest prefix, under its prefix text. -/
def selectASN (db : Table String ASNCacheRow) (isIPv6 : Bool) (point : List Char) : Option (String × ASNCacheRow) :=
  (db.entries.filter fun e => e.2.Covers isIPv6 point).argmax (·.2.prefixLen)

/-- `getASN`: the row of the longest cached prefix of an address, unless it is past its TTL. -/
def getASN (db : Table String ASNCacheRow) (ip : String) (now : Int) : Option ASNCacheEntry :=
  (ipToHex ip.toList).bind fun point =>
    (selectASN db (decide (':' ∈ ip.toList)) point).bind fun e =>
      if e.2.ttlSeconds * 1000 < now - e.2.checkedAt then none
      else some
        { ip, asn := e.2.asn.getD 0, asName := e.2.asName.getD "", announced := e.1, country := e.2.country.getD "",
          lookupOk := e.2.lookupOk, ttlSeconds := e.2.ttlSeconds, checkedAt := e.2.checkedAt }

/-- `saveASN`: the row of the prefix is put in; of a row already there the range stays. -/
def saveASN (db : Table String ASNCacheRow) (e : ASNCacheEntry) : Table String ASNCacheRow :=
  match prefixToRange e.announced.toList with
  | none => db
  | some range =>
    let asn := if e.asn = 0 then none else some e.asn
    let asName := if e.asName = "" then none else some e.asName
    let country := if e.country = "" then none else some e.country
    db.alter e.announced fun
      | none => some
        { isIPv6 := range.isIPv6, rangeStart := range.start, rangeEnd := range.end, prefixLen := range.prefixLen, asn, asName,
          country, lookupOk := e.lookupOk, ttlSeconds := e.ttlSeconds, checkedAt := e.checkedAt }
      | some row => some
        { row with asn, asName, country, lookupOk := e.lookupOk, ttlSeconds := e.ttlSeconds, checkedAt := e.checkedAt }

/-! ## Lookups through the table -/

/-- `clampTTL`. -/
def clampTTL (ttlSeconds : Nat) : Nat := max ttlSeconds (60 * 60)

/-- A call of `lookupGoogleASN`: the clock when it reads the table and when it stores, and whether the store takes the row. -/
structure Call where
  ip : String
  readAt : Int
  savedAt : Int
  stores : Bool

/-- `lookupGoogleASN`: what it tells and whether it found anything, and the table after it. -/
def lookupGoogleASN (routes : List Announcement) (db : Table String ASNCacheRow) (c : Call) :
    (ASNInfo × Bool) × Table String ASNCacheRow :=
  match getASN db c.ip c.readAt with
  | some cached => ((cached.toASNInfo, cached.lookupOk), db)
  | none =>
    let (info, ttlSeconds, ok) := lookupASN routes c.ip
    if !ok || !isGoogleASN info then ((info, ok), db)
    else
      let entry := { info with ip := c.ip, lookupOk := ok, ttlSeconds := clampTTL ttlSeconds, checkedAt := c.savedAt }
      ((info, ok), if c.stores then saveASN db entry else db)

/-- The gate on a lookup's result. -/
def passes (result : ASNInfo × Bool) : Bool := result.2 && isGoogleASN result.1

/-- Whether the live lookup of an address passes the gate. -/
def livePasses (routes : List Announcement) (ip : String) : Bool :=
  let (info, _, ok) := lookupASN routes ip
  passes (info, ok)

/-- The table after one more call. -/
def nextCache (routes : List Announcement) (db : Table String ASNCacheRow) (c : Call) : Option (Table String ASNCacheRow) :=
  some (lookupGoogleASN routes db c).2

/-- The call finds no row past its TTL. -/
def WithinTTL (db : Table String ASNCacheRow) (c : Call) : Prop :=
  ∀ announced row, db.get? announced = some row → c.readAt - row.checkedAt ≤ row.ttlSeconds * 1000

end Gwsdb.Web
