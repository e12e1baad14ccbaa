import Gwsdb.Lemmas.AsnCache

/-!
# The gate through the cache and the live gate

A row of the cache comes from an announcement that answered a live lookup and is Google's, and it answers for every
address of that prefix. So the two gates agree exactly when such a prefix contains no address whose own longest
announcement is not Google's (`asn_gate_exact_iff`); a smaller foreign prefix inside one of Google's opens the gate for
its addresses (`foreign_prefix_passes`).
-/

namespace Gwsdb.Web

open Keyed (Table)
open Gwsdb.Net
open Transition (run Meets)

/-! ## Live lookups -/

theorem lookupASN_of_live {routes : List Announcement} {ip : String} {r : Announcement} (h : live routes ip = some r) :
    lookupASN routes ip = (r.info, r.ttlSeconds, true) := by
  unfold lookupASN
  rw [h]

/-- The range of an announcement's prefix text. -/
theorem prefixToRange_announced (r : Announcement) : prefixToRange r.info.announced.toList = some r.block.range := by
  have htext : r.info.announced.toList = cidr r.text.toList r.len := String.toList_ofList
  rw [htext]
  exact prefixToRange_of_cidrText (cidrText_cidr r.parsed r.len_le)

/-! ## The rows of the cache -/

/-- A row of the cache: it holds the range of its prefix text, and was stored for an announcement of Google's that answered a live
lookup. -/
def StoredFor (routes : List Announcement) (announced : String) (row : ASNCacheRow) : Prop :=
  prefixToRange announced.toList = some row.range ∧ row.lookupOk = true ∧
    ∃ r ip, live routes ip = some r ∧ isGoogleASN r.info = true ∧ r.info.announced = announced ∧ row.asName.getD "" = r.asName

/-- Every row of the cache was stored for an announcement. -/
def Stored (routes : List Announcement) (db : Table String ASNCacheRow) : Prop :=
  ∀ announced row, db.get? announced = some row → StoredFor routes announced row

theorem stored_empty (routes : List Announcement) : Stored routes Table.empty := by
  intro announced row h
  rw [Table.get?_empty] at h
  cases h

/-- A save of what a live lookup of Google's found keeps every row stored for an announcement. -/
theorem Stored.save {routes : List Announcement} {db : Table String ASNCacheRow} (h : Stored routes db) {ip : String}
    {r : Announcement} (hlive : live routes ip = some r) (hg : isGoogleASN r.info = true) {e : ASNCacheEntry}
    (he : e.toASNInfo = r.info) (hok : e.lookupOk = true) : Stored routes (saveASN db e) := by
  intro announced row hrow
  rcases get?_saveASN hrow with hold | ⟨rfl, hname, hlook, hrange⟩
  · exact h announced row hold
  · refine ⟨?_, hlook.trans hok, r, ip, hlive, hg, ?_, ?_⟩
    · rcases hrange with hnew | ⟨old, hold, heq⟩
      · exact hnew
      · rw [heq]
        exact (h _ old hold).1
    · rw [← he]
    · rw [hname, he]
      rfl

/-- Every call keeps every row stored for an announcement. -/
theorem nextCache_stored {routes : List Announcement} {db db' : Table String ASNCacheRow} {c : Call}
    (hnext : nextCache routes db c = some db') (h : Stored routes db) : Stored routes db' := by
  unfold nextCache lookupGoogleASN at hnext
  cases hnext
  cases getASN db c.ip c.readAt with
  | some cached => exact h
  | none =>
    cases hlive : live routes c.ip with
    | none =>
      have hnone : lookupASN routes c.ip = (⟨0, "", "", ""⟩, 0, false) := by
        unfold lookupASN
        rw [hlive]
      simp only [hnone]
      exact h
    | some r =>
      simp only [lookupASN_of_live hlive]
      cases hg : isGoogleASN r.info with
      | false => exact h
      | true =>
        cases hs : c.stores with
        | false => exact h
        | true => exact h.save hlive hg rfl rfl

/-! ## Lookups through the cache -/

/-- The row stands for an address if and only if the announcement it was stored for contains the address. -/
theorem covers_iff {row : ASNCacheRow} {r : Announcement} (hrange : prefixToRange r.info.announced.toList = some row.range)
    {ip : String} {a : Addr} (ha : addrOf ip.toList = some a) :
    row.Covers (decide (':' ∈ ip.toList)) (Digits.digits 16 32 a.value) ↔ r.block.Contains a := by
  rw [prefixToRange_announced, Option.some.injEq] at hrange
  exact covers_iff_contains hrange.symm (addrOf_lt r.parsed) ha

/-- A lookup answered from the cache passes the gate, and a prefix of Google's that answered a live
lookup contains its address. -/
theorem getASN_some {routes : List Announcement} {db : Table String ASNCacheRow} (h : Stored routes db) {ip : String} {now : Int}
    {cached : ASNCacheEntry} (hc : getASN db ip now = some cached) :
    passes (cached.toASNInfo, cached.lookupOk) = true ∧
      ∃ a r ip', addrOf ip.toList = some a ∧ live routes ip' = some r ∧ isGoogleASN r.info = true ∧ r.block.Contains a := by
  unfold getASN at hc
  rw [ipToHex_eq] at hc
  obtain ⟨point, hpoint, hc⟩ := Option.bind_eq_some_iff.1 hc
  obtain ⟨a, ha, rfl⟩ := Option.map_eq_some_iff.1 hpoint
  obtain ⟨⟨announced, row⟩, hsel, hc⟩ := Option.bind_eq_some_iff.1 hc
  obtain ⟨hrow, hcov⟩ := selectASN_some hsel
  obtain ⟨hrange, hlook, r, ip', hlive, hg, rfl, hname⟩ := h _ row hrow
  simp only [] at hc
  split at hc
  · cases hc
  · cases hc
    refine ⟨?_, a, r, ip', ha, hlive, hg, (covers_iff hrange ha).1 hcov⟩
    have hinfo : isGoogleASN ⟨row.asn.getD 0, row.asName.getD "", r.info.announced, row.country.getD ""⟩ =
        isGoogleASN r.info := by
      unfold isGoogleASN
      rw [hname]
      rfl
    unfold passes
    rw [hlook, hinfo, hg]
    rfl

/-- Within the TTL, an address of a stored prefix is answered from the cache. -/
theorem getASN_isSome {routes : List Announcement} {db : Table String ASNCacheRow} (h : Stored routes db) {c : Call}
    (ht : WithinTTL db c) {r : Announcement} {row : ASNCacheRow} (hrow : db.get? r.info.announced = some row) {a : Addr}
    (ha : addrOf c.ip.toList = some a) (hc : r.block.Contains a) : ∃ cached, getASN db c.ip c.readAt = some cached := by
  have hcov := (covers_iff (h _ row hrow).1 ha).2 hc
  obtain ⟨e, hsel⟩ := Option.ne_none_iff_exists'.1 (selectASN_ne_none hrow hcov)
  have hbest := ht _ e.2 (selectASN_some hsel).1
  unfold getASN
  rw [ipToHex_eq, ha, Option.map_some, Option.bind_some, hsel, Option.bind_some, if_neg (by omega)]
  exact ⟨_, rfl⟩

theorem lookup_of_cached {routes : List Announcement} {db : Table String ASNCacheRow} {c : Call} {cached : ASNCacheEntry}
    (h : getASN db c.ip c.readAt = some cached) :
    (lookupGoogleASN routes db c).1 = (cached.toASNInfo, cached.lookupOk) := by
  unfold lookupGoogleASN
  rw [h]

/-- A lookup that is not answered from the cache gives what the live lookup gives. -/
theorem lookup_of_miss {routes : List Announcement} {db : Table String ASNCacheRow} {c : Call}
    (h : getASN db c.ip c.readAt = none) : passes (lookupGoogleASN routes db c).1 = livePasses routes c.ip := by
  unfold lookupGoogleASN livePasses
  rw [h]
  simp only []
  split <;> rfl

/-! ## The two gates -/

/-- The addresses of every prefix of Google's that is the longest one of some address are Google's: the longest announcement of
each of them is one of Google's too. -/
def NoForeignInside (routes : List Announcement) : Prop :=
  ∀ ip a ip' r, addrOf ip.toList = some a → live routes ip' = some r → isGoogleASN r.info = true → r.block.Contains a →
    livePasses routes ip = true

/-- A save into the empty table makes one row, of the time saved. -/
theorem get?_saveASN_empty {e : ASNCacheEntry} {range : IPRange} (hrange : prefixToRange e.announced.toList = some range) :
    (saveASN Table.empty e).get? e.announced ≠ none ∧
      ∀ announced row, (saveASN Table.empty e).get? announced = some row → row.checkedAt = e.checkedAt := by
  unfold saveASN
  rw [hrange]
  constructor
  · rw [Table.get?_alter_self]
    exact Option.some_ne_none _
  · intro announced row hrow
    rw [Table.get?_alter] at hrow
    split at hrow
    · cases hrow
      rfl
    · cases hrow

/-- A first lookup of an address of Google's stores its announcement. -/
theorem first_lookup {routes : List Announcement} {ip : String} {r : Announcement} (hlive : live routes ip = some r)
    (hg : isGoogleASN r.info = true) : ∃ db, nextCache routes Table.empty ⟨ip, 0, 0, true⟩ = some db ∧
      db.get? r.info.announced ≠ none ∧ ∀ announced row, db.get? announced = some row → row.checkedAt = 0 := by
  have hmiss : getASN Table.empty ip 0 = none := by
    unfold getASN
    cases ipToHex ip.toList <;> rfl
  have hsave := get?_saveASN_empty (e :=
    { r.info with ip := ip, lookupOk := true, ttlSeconds := clampTTL r.ttlSeconds, checkedAt := 0 }) (prefixToRange_announced r)
  refine ⟨_, ?_, hsave⟩
  unfold nextCache lookupGoogleASN
  simp only [hmiss, lookupASN_of_live hlive, hg]
  rfl

/-- In every sequence of lookups within the TTL each passes the gate exactly when its live lookup would, if and only if no prefix
of Google's that answers a live lookup contains an address that is not Google's. -/
theorem asn_gate_exact_iff (routes : List Announcement) :
    (∀ calls db, run (nextCache routes) Table.empty calls = some db → Meets (nextCache routes) WithinTTL Table.empty calls →
      ∀ c, WithinTTL db c → passes (lookupGoogleASN routes db c).1 = livePasses routes c.ip) ↔ NoForeignInside routes := by
  constructor
  · intro hexact ip a ip' r ha hlive hg hc
    obtain ⟨db, hnext, hsome, hfresh⟩ := first_lookup hlive hg
    obtain ⟨row, hrow⟩ := Option.ne_none_iff_exists'.1 hsome
    have hstored : Stored routes db := nextCache_stored hnext (stored_empty routes)
    have ht : WithinTTL db ⟨ip, 0, 0, true⟩ := by
      intro announced row' hrow'
      rw [hfresh announced row' hrow']
      exact Int.mul_nonneg (Int.natCast_nonneg _) (by decide)
    have hmeets : Meets (nextCache routes) WithinTTL Table.empty [⟨ip', 0, 0, true⟩] := by
      refine Meets.cons hnext ?_ trivial
      intro announced row' hrow'
      rw [Table.get?_empty] at hrow'
      cases hrow'
    obtain ⟨cached, hcached⟩ := getASN_isSome hstored ht hrow ha hc
    have hrun : run (nextCache routes) Table.empty [⟨ip', 0, 0, true⟩] = some db :=
      Transition.run_cons.2 ⟨db, hnext, Transition.run_nil db⟩
    rw [← hexact _ db hrun hmeets ⟨ip, 0, 0, true⟩ ht, lookup_of_cached hcached]
    exact (getASN_some hstored hcached).1
  · intro hinside calls db hrun _ c _
    have hstored : Stored routes db :=
      Transition.invariant (fun _ _ _ hnext h => nextCache_stored hnext h) hrun (stored_empty routes)
    cases hcached : getASN db c.ip c.readAt with
    | none => exact lookup_of_miss hcached
    | some cached =>
      obtain ⟨hpass, a, r, ip', ha, hlive, hg, hc⟩ := getASN_some hstored hcached
      rw [lookup_of_cached hcached, hpass, hinside c.ip a ip' r ha hlive hg hc]

/-- A prefix of Google's with a smaller one of another AS inside it. -/
def nestedRoutes : List Announcement :=
  [⟨"8.8.0.0", ⟨false, 0x08080000⟩, 16, 15169, "GOOGLE, US", "US", 300, by decide +kernel, by decide⟩,
    ⟨"8.8.8.0", ⟨false, 0x08080800⟩, 24, 3356, "LEVEL3, US", "US", 300, by decide +kernel, by decide⟩]

/-- After a lookup in Google's prefix, an address of the smaller foreign one passes the gate, which its live lookup does not. -/
theorem foreign_prefix_passes :
    ¬∀ routes calls db, run (nextCache routes) Table.empty calls = some db →
      Meets (nextCache routes) WithinTTL Table.empty calls → ∀ c, WithinTTL db c →
        (passes (lookupGoogleASN routes db c).1 = true ↔ livePasses routes c.ip = true) := by
  intro h
  have ht : WithinTTL (lookupGoogleASN nestedRoutes Table.empty ⟨"8.8.9.9", 0, 0, true⟩).2 ⟨"8.8.8.8", 1000, 1000, true⟩ := by
    intro announced row hrow
    have hall : ∀ e ∈ (lookupGoogleASN nestedRoutes Table.empty ⟨"8.8.9.9", 0, 0, true⟩).2.entries,
        1000 - e.2.checkedAt ≤ e.2.ttlSeconds * 1000 := by decide +kernel
    exact hall (announced, row) ((Table.mem_entries_iff _ _ _).2 hrow)
  have hmeets : Meets (nextCache nestedRoutes) WithinTTL Table.empty [⟨"8.8.9.9", 0, 0, true⟩] := by
    refine Meets.cons rfl ?_ trivial
    intro announced row hrow
    rw [Table.get?_empty] at hrow
    cases hrow
  have hpass : passes (lookupGoogleASN nestedRoutes (lookupGoogleASN nestedRoutes Table.empty ⟨"8.8.9.9", 0, 0, true⟩).2
      ⟨"8.8.8.8", 1000, 1000, true⟩).1 = true := by decide +kernel
  have hlive : livePasses nestedRoutes "8.8.8.8" = false := by decide +kernel
  have := (h nestedRoutes [⟨"8.8.9.9", 0, 0, true⟩] _ rfl hmeets ⟨"8.8.8.8", 1000, 1000, true⟩ ht).1 hpass
  rw [hlive] at this
  cases this

end Gwsdb.Web
